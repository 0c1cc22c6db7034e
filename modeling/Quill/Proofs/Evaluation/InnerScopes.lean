import Quill.Proofs.Evaluation.Pairing
import Quill.Proofs.Tree.Braces

/-!
# Runs with braces added

A program runs beside the same program with braces around some of its statements. Braces make a
scope, so the second run has scopes that the first run does not have, between those that both runs
make. Nothing is ever bound in such a scope, since what stands in it is no declaration. But the
functions declared further inside keep it in their chains for the rest of the run.

A `Twinning` lists the scopes of the second run as they are made: each is the twin of a scope of the
first run or idle, and it only grows. Along a chain of the second run one passes by the idle scopes,
and the twins are met in the same order as in the first run (`Twinning.Sees`).

* `Value.Braced`, `Store.Braced`: the same values and stores up to braces and idle scopes. Every
  operation of the store keeps this, and so does an idle scope made on one side
  (`Store.Braced.addIdle`). Names are looked up and assigned alike.
* `Eval.Braces`: from such states, two actions come to such results in such states, or stop for the
  same reason. This is kept by putting actions together (`Braces.bind`), and the actions of the
  machine have it.
-/

namespace Quill

/-! ## Twins and idle scopes -/

/-- What a scope of the second run is for the first run. -/
inductive Counterpart where
  /-- Both runs made the scope, and it has this number in the first run. -/
  | twin (original : ScopeId)
  /-- The scope was made for added braces, while the first run was in this scope. -/
  | idle (original : ScopeId)

/-- The scopes of the second run, by number. -/
abbrev Twinning := List Counterpart

namespace Twinning

/-- Both runs made the scope. -/
def Twins (W : Twinning) (id id' : ScopeId) : Prop := W[id'.index]? = some (.twin id)

/-- The second run made the scope for added braces. -/
def Idle (W : Twinning) (id id' : ScopeId) : Prop := W[id'.index]? = some (.idle id)

/-- The first run is in the first scope while the second run is in the second. -/
def Stands (W : Twinning) (id id' : ScopeId) : Prop := W.Twins id id' ∨ W.Idle id id'

/-- The second chain is the first but for idle scopes. -/
inductive Sees (W : Twinning) : List ScopeId → List ScopeId → Prop
  | nil : Sees W [] []
  | twins {id id' : ScopeId} {rest rest' : List ScopeId} (first : W.Twins id id')
      (behind : Sees W rest rest') : Sees W (id :: rest) (id' :: rest')
  | idle {id id' : ScopeId} {chain rest' : List ScopeId} (first : W.Idle id id')
      (behind : Sees W chain rest') : Sees W chain (id' :: rest')

variable {W W' : Twinning} {id id' other other' : ScopeId} {c : Counterpart}

/-- A twin stands for the scope whose twin it is. -/
theorem Twins.stands (h : W.Twins id id') : W.Stands id id' := .inl h

/-- An idle scope stands for the scope that it was made in. -/
theorem Idle.stands (h : W.Idle id id') : W.Stands id id' := .inr h

/-- A scope is the twin of one scope only. -/
theorem Twins.original_eq (h : W.Twins id id') (h' : W.Twins other id') : id = other := by
  have hboth := h.symm.trans h'
  cases hboth
  rfl

/-- A twin is not idle. -/
theorem Twins.not_idle (h : W.Twins id id') : ¬W.Idle other id' := by
  intro hidle
  have hboth := h.symm.trans hidle
  cases hboth

/-- A scope that stands for another is one of those made so far. -/
theorem Stands.lt_length (h : W.Stands id id') : id'.index < W.length := by
  obtain h | h := h
  · exact (List.getElem?_eq_some_iff.1 h).1
  · exact (List.getElem?_eq_some_iff.1 h).1

/-! ### Growth -/

/-- What a list holds, a longer one holds at the same place. -/
theorem getElem?_mono {i : Nat} (h : W[i]? = some c) (hW : W <+: W') : W'[i]? = some c := by
  obtain ⟨more, rfl⟩ := hW
  rw [List.getElem?_append_left (List.getElem?_eq_some_iff.1 h).1]
  exact h

/-- Twins stay twins when scopes are made. -/
theorem Twins.mono (h : W.Twins id id') (hW : W <+: W') : W'.Twins id id' := getElem?_mono h hW

/-- Idle scopes stay idle when scopes are made. -/
theorem Idle.mono (h : W.Idle id id') (hW : W <+: W') : W'.Idle id id' := getElem?_mono h hW

/-- A scope goes on to stand for another when scopes are made. -/
theorem Stands.mono (h : W.Stands id id') (hW : W <+: W') : W'.Stands id id' :=
  h.imp (·.mono hW) (·.mono hW)

/-- Chains go on to see the same scopes when scopes are made. -/
theorem Sees.mono {chain chain' : List ScopeId} (h : W.Sees chain chain') (hW : W <+: W') :
    W'.Sees chain chain' := by
  induction h with
  | nil => exact .nil
  | twins first _ ih => exact .twins (first.mono hW) ih
  | idle first _ ih => exact .idle (first.mono hW) ih

/-- The scope made last has the number that comes next. -/
theorem of_getElem?_concat {d : Counterpart} (h : (W ++ [c])[id.index]? = some d) :
    W[id.index]? = some d ∨ id = ⟨W.length⟩ ∧ c = d := by
  rw [List.getElem?_append] at h
  split at h
  · exact .inl h
  · next hge =>
    obtain ⟨hlt, hc⟩ := List.getElem?_eq_some_iff.1 h
    have hindex : id.index = W.length := by
      rw [List.length_singleton] at hlt
      omega
    refine .inr ⟨congrArg ScopeId.mk hindex, ?_⟩
    rw [List.getElem_singleton] at hc
    exact hc

end Twinning

/-! ## Values -/

variable {W W' : Twinning}

/-- The functions are the same up to braces. -/
structure FunctionValue.Braced (W : Twinning) (f f' : FunctionValue) : Prop where
  identity : f'.identity = f.identity
  wellFormed : f.declaration.wellFormed = true
  declaration : f.declaration.Braced f'.declaration
  closure : W.Stands f.closure f'.closure

/-- The classes are the same up to braces. -/
structure ClassValue.Braced (W : Twinning) (c c' : ClassValue) : Prop where
  identity : c'.identity = c.identity
  name_eq : c'.name = c.name
  wellFormed : FunctionDecl.listWellFormed c.declaration.methods = true
  methods : FunctionDecl.ListBraced c.declaration.methods c'.declaration.methods
  scope : W.Stands c.scope c'.scope

/-- The values are the same up to braces. -/
inductive Value.Braced (W : Twinning) : Value → Value → Prop
  | nil : Braced W .nil .nil
  | boolean (b : Bool) : Braced W (.boolean b) (.boolean b)
  | number (n : Number) : Braced W (.number n) (.number n)
  | string (s : String) : Braced W (.string s) (.string s)
  | function {f f' : FunctionValue} (h : f.Braced W f') : Braced W (.function f) (.function f')
  | classValue {c c' : ClassValue} (h : c.Braced W c') : Braced W (.classValue c) (.classValue c')
  | object (id : ObjectId) : Braced W (.object id) (.object id)

/-- Functions still go together when scopes are made. -/
theorem FunctionValue.Braced.mono {f f' : FunctionValue} (h : f.Braced W f') (hW : W <+: W') :
    f.Braced W' f' :=
  { h with closure := h.closure.mono hW }

/-- Classes still go together when scopes are made. -/
theorem ClassValue.Braced.mono {c c' : ClassValue} (h : c.Braced W c') (hW : W <+: W') :
    c.Braced W' c' :=
  { h with scope := h.scope.mono hW }

namespace Value.Braced

variable {v v' w w' : Value}

/-- Values still go together when scopes are made. -/
theorem mono (h : v.Braced W v') (hW : W <+: W') : v.Braced W' v' := by
  cases h with
  | nil => exact .nil
  | boolean b => exact .boolean b
  | number n => exact .number n
  | string s => exact .string s
  | function h => exact .function (h.mono hW)
  | classValue h => exact .classValue (h.mono hW)
  | object id => exact .object id

/-- Lists of values still go together when scopes are made. -/
theorem list_mono {vs vs' : List Value} (h : List.Forall₂ (Braced W) vs vs') (hW : W <+: W') :
    List.Forall₂ (Braced W') vs vs' :=
  h.imp fun _ _ hv => hv.mono hW

/-- Values that may be missing still go together when scopes are made. -/
theorem option_mono {v v' : Option Value} (h : Option.Rel (Braced W) v v') (hW : W <+: W') :
    Option.Rel (Braced W') v v' := by
  cases h with
  | some h => exact .some (h.mono hW)
  | none => exact .none

/-- A literal has the same value in both runs. -/
theorem ofLiteral (value : Literal) : Braced W (.ofLiteral value) (.ofLiteral value) := by
  cases value with
  | number n => exact .number n
  | string s => exact .string s
  | boolean b => exact .boolean b
  | nil => exact .nil

/-- Values that go together count as true alike. -/
theorem isTruthy_eq (h : v.Braced W v') : v'.isTruthy = v.isTruthy := by
  cases h with
  | _ => rfl

/-- Equality does not tell values apart that go together. -/
theorem same_eq (h : v.Braced W v') (hw : w.Braced W w') : v'.same w' = v.same w := by
  cases h with
  | function h =>
    cases hw with
    | function hw => simp [Value.same, h.identity, hw.identity]
    | _ => rfl
  | classValue h =>
    cases hw with
    | classValue hw => simp [Value.same, h.identity, hw.identity]
    | _ => rfl
  | _ =>
    cases hw with
    | _ => rfl

end Value.Braced

namespace ClassValue.Braced

variable {c c' : ClassValue} (h : c.Braced W c')

include h

/-- Classes that go together have methods that do, under the same names. -/
theorem method? (name : String) :
    Option.Rel (fun method method' => method.wellFormed = true ∧ method.Braced method')
      (c.method? name) (c'.method? name) := by
  have hfound : Option.Rel FunctionDecl.Braced (c.method? name) (c'.method? name) :=
    h.methods.find?_reverse name
  have hwf : ∀ method, c.method? name = some method → method.wellFormed = true :=
    fun method hmethod => FunctionDecl.listWellFormed_iff.1 h.wellFormed method
      (List.mem_reverse.1 (List.mem_of_find?_eq_some hmethod))
  generalize c.method? name = found at hfound hwf
  generalize c'.method? name = found' at hfound
  cases hfound with
  | none => exact .none
  | some hmethod => exact .some ⟨hwf _ rfl, hmethod⟩

/-- Classes that go together take as many arguments. -/
theorem arity_eq : c'.arity = c.arity := by
  have hinitializer := h.method? initializerName
  unfold ClassValue.arity ClassValue.initializer?
  generalize c.method? initializerName = found at hinitializer
  generalize c'.method? initializerName = found' at hinitializer
  cases hinitializer with
  | none => rfl
  | some hmethod => exact hmethod.2.arity_eq

end ClassValue.Braced

/-! ## Stores -/

/-- The objects have the same class and fields up to braces. -/
structure Object.Braced (W : Twinning) (o o' : Object) : Prop where
  classOf : o.classOf.Braced W o'.classOf
  field : ∀ name, Option.Rel (Value.Braced W) (o.fields.get? name) (o'.fields.get? name)

/-- Objects still go together when scopes are made. -/
theorem Object.Braced.mono {o o' : Object} (h : o.Braced W o') (hW : W <+: W') :
    o.Braced W' o' :=
  ⟨h.classOf.mono hW, fun name => Value.Braced.option_mono (h.field name) hW⟩

/-- Objects that may be missing still go together when scopes are made. -/
theorem Object.Braced.option_mono {o o' : Option Object} (h : Option.Rel (Object.Braced W) o o')
    (hW : W <+: W') : Option.Rel (Object.Braced W') o o' := by
  cases h with
  | some h => exact .some (h.mono hW)
  | none => exact .none

/-- What the two runs have made is the same up to braces and idle scopes. -/
structure Store.Braced (W : Twinning) (s s' : Store) : Prop where
  /-- Each scope of the second run has its counterpart. -/
  scopes : s'.scopes.size = W.length
  /-- Counterparts have been made. -/
  lt_size : ∀ {id id'}, W.Stands id id' → id.index < s.scopes.size
  /-- No scope has two twins. -/
  unique : ∀ {id id' other'}, W.Twins id id' → W.Twins id other' → id' = other'
  /-- Twins bind the same names to the same values. -/
  own : ∀ {id id'}, W.Twins id id' → ∀ name,
    Option.Rel (Value.Braced W) (s.own? id name) (s'.own? id' name)
  /-- Nothing is bound in an idle scope. -/
  idle : ∀ {id id'}, W.Idle id id' → ∀ name, s'.own? id' name = none
  /-- From where the runs stand at the same time, they see the same scopes. -/
  chain : ∀ {id id'}, W.Stands id id' → W.Sees (s.chain id) (s'.chain id')
  /-- The same objects have been made. -/
  objects : s'.objects.size = s.objects.size
  /-- The objects have the same fields. -/
  object : ∀ id, Option.Rel (Object.Braced W) (s.object? id) (s'.object? id)
  /-- As many identities have been given out. -/
  identities : s'.identities = s.identities

namespace Store

variable (s : Store) (around : List ScopeId)

/-- The chain of a scope does not change when another is made. -/
theorem chain_addScope {id : ScopeId} (h : id.index < s.scopes.size) :
    (s.addScope around).2.chain id = s.chain id := by
  rw [chain, enclosing_addScope s around h, chain]

/-- The chain of a new scope is the scope itself and those around it. -/
theorem chain_addScope_self :
    (s.addScope around).2.chain ⟨s.scopes.size⟩ = ⟨s.scopes.size⟩ :: around := by
  rw [chain, enclosing_addScope_self]

end Store

namespace Store.Braced

variable {s s' : Store} (h : s.Braced W s')

include h

/-- A scope that stands for another has been made. -/
theorem stands_lt_size {id id' : ScopeId} (hid : W.Stands id id') :
    id'.index < s'.scopes.size := by
  rw [h.scopes]
  exact hid.lt_length

/-! ### Looking up -/

/-- A name has values that go together from scopes that stand for each other. -/
theorem get? {id id' : ScopeId} (hid : W.Stands id id') (name : String) :
    Option.Rel (Value.Braced W) (s.get? id name) (s'.get? id' name) := by
  unfold Store.get?
  have hchain := h.chain hid
  generalize s.chain id = scopes at hchain
  generalize s'.chain id' = scopes' at hchain
  induction hchain with
  | nil => exact .none
  | @twins outer outer' rest rest' first _ ih =>
    have hown := h.own first name
    rw [List.findSome?_cons, List.findSome?_cons]
    generalize s.own? outer name = found at hown
    generalize s'.own? outer' name = found' at hown
    cases hown with
    | some hv => exact .some hv
    | none => exact ih
  | idle first _ ih =>
    rw [List.findSome?_cons, h.idle first name]
    exact ih

/-- A name is never bound in an idle scope, so it is assigned in a twin. -/
theorem owner? {id id' : ScopeId} (hid : W.Stands id id') (name : String) :
    Option.Rel W.Twins (s.owner? id name) (s'.owner? id' name) := by
  unfold Store.owner?
  have hchain := h.chain hid
  generalize s.chain id = scopes at hchain
  generalize s'.chain id' = scopes' at hchain
  induction hchain with
  | nil => exact .none
  | @twins outer outer' rest rest' first _ ih =>
    have hown := h.own first name
    rw [List.find?_cons, List.find?_cons]
    generalize s.own? outer name = found at hown
    generalize s'.own? outer' name = found' at hown
    cases hown with
    | some hv => exact .some first
    | none => exact ih
  | idle first _ ih =>
    rw [List.find?_cons, h.idle first name]
    exact ih

/-- An object has a class of the same name in both stores. -/
theorem className_eq (id : ObjectId) : s'.className id = s.className id := by
  have hobject := h.object id
  unfold Store.className
  generalize s.object? id = found at hobject
  generalize s'.object? id = found' at hobject
  cases hobject with
  | some ho => exact ho.classOf.name_eq
  | none => rfl

/-- What is shown of a value does not tell about braces. -/
theorem display_eq {v v' : Value} (hv : v.Braced W v') : s'.display v' = s.display v := by
  cases hv with
  | function hf => simp [Store.display, hf.declaration.name_eq]
  | classValue hc => simp [Store.display, hc.name_eq]
  | object id => simp [Store.display, h.className_eq id]
  | boolean b =>
    cases b with
    | _ => rfl
  | _ => rfl

/-! ### Changing -/

/-- A name that is bound alike in twins is bound to values that go together. -/
theorem define {id id' : ScopeId} (hid : W.Twins id id') (name : String) {v v' : Value}
    (hv : v.Braced W v') : (s.define id name v).Braced W (s'.define id' name v') where
  scopes := by
    rw [Store.size_define]
    exact h.scopes
  lt_size := by
    intro other other' hother
    rw [Store.size_define]
    exact h.lt_size hother
  unique := h.unique
  own := by
    intro other other' hother key
    by_cases hsame : other = id
    · obtain rfl := hsame
      obtain rfl := h.unique hother hid
      rw [Store.own?_define_self _ (h.lt_size hother.stands),
        Store.own?_define_self _ (h.stands_lt_size hother.stands)]
      exact rel_ite Iff.rfl (.some hv) (h.own hother key)
    · have hsame' : other' ≠ id' := by
        rintro rfl
        exact hsame (hother.original_eq hid)
      rw [Store.own?_define_of_ne _ hsame, Store.own?_define_of_ne _ hsame']
      exact h.own hother key
  idle := by
    intro other other' hother key
    have hsame' : other' ≠ id' := by
      rintro rfl
      exact hid.not_idle hother
    rw [Store.own?_define_of_ne _ hsame']
    exact h.idle hother key
  chain := by
    intro other other' hother
    rw [Store.chain, Store.chain, Store.enclosing_define, Store.enclosing_define]
    exact h.chain hother
  objects := h.objects
  object := h.object
  identities := h.identities

/-- Names that are bound alike in twins are bound to values that go together. -/
theorem defineAll {id id' : ScopeId} (hid : W.Twins id id') (names : List String)
    {values values' : List Value} (hvalues : List.Forall₂ (Value.Braced W) values values') :
    (s.defineAll id (names.zip values)).Braced W (s'.defineAll id' (names.zip values')) := by
  induction names generalizing s s' values values' with
  | nil => exact h
  | cons name rest ih =>
    cases hvalues with
    | nil => exact h
    | cons hv hvalues => exact ih (h.define hid name hv) hvalues

/-- The second run makes a scope, and what the first run does with its scopes meanwhile leaves those
it had before as they were. -/
theorem grow {t : Store} {c : Counterpart} {around' : List ScopeId}
    (hsize : s.scopes.size ≤ t.scopes.size)
    (hown : ∀ {id}, id.index < s.scopes.size → ∀ name, t.own? id name = s.own? id name)
    (hchain : ∀ {id}, id.index < s.scopes.size → t.chain id = s.chain id)
    (hobjects : t.objects = s.objects) (hidentities : t.identities = s.identities)
    (hfresh : ∀ {id}, c = .twin id → s.scopes.size ≤ id.index ∧ ∀ name, t.own? id name = none)
    (hsees : ∀ {id}, c = .twin id ∨ c = .idle id → id.index < t.scopes.size ∧
      Twinning.Sees (W ++ [c]) (t.chain id) (⟨W.length⟩ :: around')) :
    t.Braced (W ++ [c]) (s'.addScope around').2 := by
  have hW : W <+: W ++ [c] := List.prefix_append _ _
  have hstands : ∀ {id id'}, Twinning.Stands (W ++ [c]) id id' →
      W.Stands id id' ∨ id' = ⟨W.length⟩ ∧ (c = .twin id ∨ c = .idle id) := by
    rintro id id' (hid | hid)
    · exact (Twinning.of_getElem?_concat hid).imp .inl fun hnew => ⟨hnew.1, .inl hnew.2⟩
    · exact (Twinning.of_getElem?_concat hid).imp .inr fun hnew => ⟨hnew.1, .inr hnew.2⟩
  have hnone' : ∀ name, (s'.addScope around').2.own? ⟨W.length⟩ name = none := by
    intro name
    rw [← h.scopes, Store.own?_addScope_self]
  constructor
  case scopes => rw [Store.size_addScope, h.scopes, List.length_append, List.length_singleton]
  case lt_size =>
    intro id id' hid
    obtain hold | ⟨-, hnew⟩ := hstands hid
    · exact Nat.lt_of_lt_of_le (h.lt_size hold) hsize
    · exact (hsees hnew).1
  case unique =>
    intro id id' other' hid hother
    obtain hold | ⟨rfl, hnew⟩ := Twinning.of_getElem?_concat hid
    · obtain hother | ⟨-, hnew⟩ := Twinning.of_getElem?_concat hother
      · exact h.unique hold hother
      · exact absurd (h.lt_size (.inl hold)) (Nat.not_lt.2 (hfresh hnew).1)
    · obtain hother | ⟨rfl, -⟩ := Twinning.of_getElem?_concat hother
      · exact absurd (h.lt_size (.inl hother)) (Nat.not_lt.2 (hfresh hnew).1)
      · rfl
  case own =>
    intro id id' hid name
    obtain hold | ⟨rfl, hnew⟩ := Twinning.of_getElem?_concat hid
    · rw [hown (h.lt_size (.inl hold)), Store.own?_addScope _ _ (h.stands_lt_size (.inl hold))]
      exact Value.Braced.option_mono (h.own hold name) hW
    · rw [(hfresh hnew).2, hnone']
      exact .none
  case idle =>
    intro id id' hid name
    obtain hold | ⟨rfl, -⟩ := Twinning.of_getElem?_concat hid
    · rw [Store.own?_addScope _ _ (h.stands_lt_size (.inr hold))]
      exact h.idle hold name
    · exact hnone' name
  case chain =>
    intro id id' hid
    obtain hold | ⟨rfl, hnew⟩ := hstands hid
    · rw [hchain (h.lt_size hold), Store.chain_addScope _ _ (h.stands_lt_size hold)]
      exact (h.chain hold).mono hW
    · rw [← h.scopes, Store.chain_addScope_self, h.scopes]
      exact (hsees hnew).2
  case objects =>
    rw [hobjects]
    exact h.objects
  case object =>
    intro id
    rw [Store.object?, hobjects]
    exact Object.Braced.option_mono (h.object id) hW
  case identities =>
    rw [hidentities]
    exact h.identities

/-- Both runs make a scope. -/
theorem addScope {around around' : List ScopeId} (haround : W.Sees around around') :
    (s.addScope around).2.Braced (W ++ [.twin ⟨s.scopes.size⟩]) (s'.addScope around').2 := by
  have hW : W <+: W ++ [.twin ⟨s.scopes.size⟩] := List.prefix_append _ _
  apply h.grow
  case hsize =>
    rw [Store.size_addScope]
    exact Nat.le_succ _
  case hown => exact Store.own?_addScope s around
  case hchain => exact Store.chain_addScope s around
  case hobjects => rfl
  case hidentities => rfl
  case hfresh =>
    intro id hnew
    cases hnew
    exact ⟨Nat.le_refl _, Store.own?_addScope_self s around⟩
  case hsees =>
    rintro id (hnew | hnew)
    · cases hnew
      rw [Store.size_addScope, Store.chain_addScope_self]
      exact ⟨Nat.lt_succ_self _, .twins List.getElem?_concat_length (haround.mono hW)⟩
    · cases hnew

/-- Scopes that are made inside of such as stand for each other are twins. -/
theorem addChild {id id' : ScopeId} (hid : W.Stands id id') :
    (s.addChild id).2.Braced (W ++ [.twin ⟨s.scopes.size⟩]) (s'.addChild id').2 :=
  h.addScope (h.chain hid)

/-- The scopes that both runs have just made are twins. -/
theorem twins_new :
    Twinning.Twins (W ++ [.twin ⟨s.scopes.size⟩]) ⟨s.scopes.size⟩ ⟨s'.scopes.size⟩ := by
  rw [Twinning.Twins, h.scopes]
  exact List.getElem?_concat_length

/-- The second run makes a scope for added braces. -/
theorem addIdle {here here' : ScopeId} (hhere : W.Stands here here') :
    s.Braced (W ++ [.idle here]) (s'.addChild here').2 := by
  have hW : W <+: W ++ [.idle here] := List.prefix_append _ _
  apply h.grow
  case hsize => exact Nat.le_refl _
  case hown => exact fun _ _ => rfl
  case hchain => exact fun _ => rfl
  case hobjects => rfl
  case hidentities => rfl
  case hfresh =>
    intro other hnew
    cases hnew
  case hsees =>
    rintro other (hnew | hnew)
    · cases hnew
    · cases hnew
      exact ⟨h.lt_size hhere, .idle List.getElem?_concat_length ((h.chain hhere).mono hW)⟩

/-- Objects of classes that go together go together. -/
theorem addObject {c c' : ClassValue} (hc : c.Braced W c') :
    (s.addObject c).2.Braced W (s'.addObject c').2 :=
  { h with
    objects := by simp [Store.addObject, h.objects]
    object := by
      intro id
      have hobject := h.object id
      simp only [Store.object?, Store.addObject, Array.getElem?_push] at hobject ⊢
      rw [h.objects]
      exact rel_ite Iff.rfl (.some ⟨hc, fun _ => .none⟩) hobject }

/-- A field is set to values that go together in the same object. -/
theorem setField (id : ObjectId) (name : String) {v v' : Value} (hv : v.Braced W v') :
    (s.setField id name v).Braced W (s'.setField id name v') :=
  { h with
    objects := by simp [Store.setField, h.objects]
    object := by
      intro other
      have hobject := h.object other
      simp only [Store.object?, Store.setField, Array.getElem?_modify] at hobject ⊢
      generalize s.objects[other.index]? = found at hobject
      generalize s'.objects[other.index]? = found' at hobject
      apply rel_ite Iff.rfl
      · cases hobject with
        | none => exact .none
        | some ho =>
          apply Option.Rel.some
          refine ⟨ho.classOf, fun key => ?_⟩
          rw [Bindings.get?_insert, Bindings.get?_insert]
          exact rel_ite Iff.rfl (.some hv) (ho.field key)
      · exact hobject }

/-- As many identities have been taken in both stores. -/
theorem addIdentity : s.addIdentity.2.Braced W s'.addIdentity.2 :=
  { h with identities := congrArg (· + 1) h.identities }

/-- Functions with bodies that go together close over scopes that stand for each other. -/
theorem addFunction {f f' : FunctionDecl} (hf : f.Braced f') (hwf : f.wellFormed = true)
    {closure closure' : ScopeId} (hclosure : W.Stands closure closure') :
    (s.addFunction f closure).1.Braced W (s'.addFunction f' closure').1
      ∧ (s.addFunction f closure).2.Braced W (s'.addFunction f' closure').2 :=
  ⟨⟨h.identities, hwf, hf, hclosure⟩, h.addIdentity⟩

/-- Classes with methods that go together close over scopes that stand for each other. -/
theorem addClass (name : Name) {methods methods' : List FunctionDecl}
    (hmethods : FunctionDecl.ListBraced methods methods')
    (hwf : FunctionDecl.listWellFormed methods = true) {scope scope' : ScopeId}
    (hscope : W.Stands scope scope') :
    (s.addClass ⟨name, methods⟩ scope).1.Braced W (s'.addClass ⟨name, methods'⟩ scope').1
      ∧ (s.addClass ⟨name, methods⟩ scope).2.Braced W (s'.addClass ⟨name, methods'⟩ scope').2 :=
  ⟨⟨h.identities, rfl, hwf, hmethods, hscope⟩, h.addIdentity⟩

/-- A method is bound in a new scope of each store, and these are twins. -/
theorem bindMethod {c c' : ClassValue} (hc : c.Braced W c') {method method' : FunctionDecl}
    (hmethod : method.Braced method') (hwf : method.wellFormed = true) (receiver : ObjectId) :
    (s.bindMethod c method receiver).1.Braced (W ++ [.twin ⟨s.scopes.size⟩])
        (s'.bindMethod c' method' receiver).1
      ∧ (s.bindMethod c method receiver).2.Braced (W ++ [.twin ⟨s.scopes.size⟩])
        (s'.bindMethod c' method' receiver).2 := by
  have hbound := (h.addChild hc.scope).define h.twins_new receiverName (.object receiver)
  exact hbound.addFunction hmethod hwf h.twins_new.stands

end Store.Braced

/-- Nothing has been made in either store at the start. -/
theorem Store.braced_empty : Store.empty.Braced [] Store.empty where
  scopes := rfl
  lt_size := by rintro id id' (h | h) <;> cases h
  unique := by
    intro id id' other' h
    cases h
  own := by
    intro id id' h
    cases h
  idle := by
    intro id id' h
    cases h
  chain := by rintro id id' (h | h) <;> cases h
  objects := rfl
  object := fun _ => .none
  identities := rfl

/-! ## States -/

/-- The states are the same up to braces and idle scopes, and the runs are in these scopes. -/
structure Machine.Braced (W : Twinning) (here here' : ScopeId) (m m' : Machine) : Prop where
  store : m.store.Braced W m'.store
  scope : m.scope = here
  scope' : m'.scope = here'
  stands : W.Stands here here'
  depth : m'.depth = m.depth
  sink : m'.sink = m.sink

variable {here here' : ScopeId}

namespace Machine.Braced

variable {m m' : Machine} (h : m.Braced W here here' m')

include h

/-- States with stores that go together do so after more scopes are made. -/
theorem withStore {s s' : Store} (hW : W <+: W') (hstore : s.Braced W' s') :
    Machine.Braced W' here here' { m with store := s } { m' with store := s' } where
  store := hstore
  scope := h.scope
  scope' := h.scope'
  stands := h.stands.mono hW
  depth := h.depth
  sink := h.sink

/-- Both runs may change to scopes that stand for each other. -/
theorem withScope {id id' : ScopeId} (hid : W.Stands id id') :
    Machine.Braced W id id' { m with scope := id } { m' with scope := id' } where
  store := h.store
  scope := rfl
  scope' := rfl
  stands := hid
  depth := h.depth
  sink := h.sink

/-- The body of a function is run in a scope that both runs make. -/
theorem entering {f f' : FunctionValue} (hf : f.Braced W f') {arguments arguments' : List Value}
    (harguments : List.Forall₂ (Value.Braced W) arguments arguments') :
    (m.entering f arguments).Braced (W ++ [.twin ⟨m.store.scopes.size⟩])
      ⟨m.store.scopes.size⟩ ⟨m'.store.scopes.size⟩ (m'.entering f' arguments') where
  store := by
    have hvalues := Value.Braced.list_mono harguments
      (List.prefix_append W [.twin ⟨m.store.scopes.size⟩])
    unfold Machine.entering
    rw [hf.declaration.params_eq]
    exact (h.store.addChild hf.closure).defineAll h.store.twins_new _ hvalues
  scope := rfl
  scope' := rfl
  stands := h.store.twins_new.stands
  depth := congrArg (· + 1) h.depth
  sink := h.sink

/-- The innermost scope is set back on both sides. -/
theorem comingBack {id id' : ScopeId} {n n' : Machine} (hW : W <+: W')
    (hn : n.Braced W' id id' n') :
    Machine.Braced W' here here' { n with scope := m.scope } { n' with scope := m'.scope } where
  store := hn.store
  scope := h.scope
  scope' := h.scope'
  stands := h.stands.mono hW
  depth := hn.depth
  sink := hn.sink

/-- Only the second run was in another scope meanwhile. -/
theorem leavingIdle {id' : ScopeId} {n n' : Machine} (hW : W <+: W')
    (hn : n.Braced W' here id' n') :
    Machine.Braced W' here here' n { n' with scope := m'.scope } where
  store := hn.store
  scope := hn.scope
  scope' := h.scope'
  stands := h.stands.mono hW
  depth := hn.depth
  sink := hn.sink

/-- The innermost scope and the number of open calls are set back on both sides. -/
theorem leaving {id id' : ScopeId} {n n' : Machine} (hW : W <+: W')
    (hn : n.Braced W' id id' n') :
    Machine.Braced W' here here' { n with scope := m.scope, depth := n.depth - 1 }
      { n' with scope := m'.scope, depth := n'.depth - 1 } where
  store := hn.store
  scope := h.scope
  scope' := h.scope'
  stands := h.stands.mono hW
  depth := congrArg (· - 1) hn.depth
  sink := hn.sink

end Machine.Braced

/-! ## Actions -/

namespace Eval

variable {α α' β β' : Type}

/-- The results are the same up to braces, in a twinning that may have grown. -/
inductive BracedResult (W : Twinning) (here here' : ScopeId) (R : Twinning → α → α' → Prop) :
    EStateM.Result Stop Machine α → EStateM.Result Stop Machine α' → Prop
  | ok {W' : Twinning} {a : α} {a' : α'} {m m' : Machine} (hW : W <+: W') (h : R W' a a')
      (hm : m.Braced W' here here' m') : BracedResult W here here' R (.ok a m) (.ok a' m')
  | error {W' : Twinning} (stop : Stop) {m m' : Machine} (hW : W <+: W')
      (hm : m.Braced W' here here' m') :
      BracedResult W here here' R (.error stop m) (.error stop m')

/-- From states that are the same up to braces the actions come to such results. -/
def Braces (W : Twinning) (here here' : ScopeId) (R : Twinning → α → α' → Prop) (x : Eval α)
    (y : Eval α') : Prop :=
  ∀ ⦃m m' : Machine⦄, m.Braced W here here' m' → BracedResult W here here' R (x m) (y m')

variable {R : Twinning → α → α' → Prop} {S : Twinning → β → β' → Prop} {x : Eval α}
  {y : Eval α'}

/-- Results that go together after more scopes are made are results that go together. -/
theorem BracedResult.weaken {result : EStateM.Result Stop Machine α}
    {result' : EStateM.Result Stop Machine α'} (hW : W <+: W')
    (h : BracedResult W' here here' R result result') :
    BracedResult W here here' R result result' := by
  cases h with
  | ok hW' h hm => exact .ok (hW.trans hW') h hm
  | error stop hW' hm => exact .error stop (hW.trans hW') hm

/-- Values that go together are results that do. -/
theorem braces_pure {a : α} {a' : α'} (h : R W a a') :
    Braces W here here' R (pure a) (pure a') :=
  fun _ _ hm => .ok (List.prefix_refl _) h hm

/-- Stops for the same reason are results that go together. -/
theorem braces_throw (stop : Stop) :
    Braces W here here' R (throw stop : Eval α) (throw stop : Eval α') :=
  fun _ _ hm => .error stop (List.prefix_refl _) hm

/-- Faults on the same line are results that go together. -/
theorem braces_fail (cause : FaultCause) (line : Nat) :
    Braces W here here' R (fail cause line : Eval α) (fail cause line : Eval α') :=
  braces_throw (.fault ⟨cause, line⟩)

/-- Sequences go together if their parts do, the rests from whatever scopes there are by then. -/
theorem Braces.bind {f : α → Eval β} {g : α' → Eval β'} (hx : Braces W here here' R x y)
    (hf : ∀ {W' a a'}, W <+: W' → R W' a a' → Braces W' here here' S (f a) (g a')) :
    Braces W here here' S (x >>= f) (y >>= g) := by
  intro m m' hm
  have hfirst := hx hm
  generalize hread : x m = result at hfirst
  generalize hread' : y m' = result' at hfirst
  cases hfirst with
  | ok hW h hn =>
    rw [bind_eq_of_ok hread, bind_eq_of_ok hread']
    exact (hf hW h hn).weaken hW
  | error stop hW hn =>
    rw [bind_eq_of_error hread, bind_eq_of_error hread']
    exact .error stop hW hn

/-- What follows may look at the state first. -/
theorem braces_bind_get {f : Machine → Eval β} {g : Machine → Eval β'}
    (hf : ∀ {m m'}, m.Braced W here here' m' → BracedResult W here here' S (f m m) (g m' m')) :
    Braces W here here' S (get >>= f) (get >>= g) :=
  fun _ _ hm => hf hm

/-- Choices that are made alike go together if both ways do. -/
theorem braces_ite {p q : Prop} [Decidable p] [Decidable q] {x₁ x₂ : Eval α} {y₁ y₂ : Eval α'}
    (hpq : p ↔ q) (h₁ : Braces W here here' R x₁ y₁) (h₂ : Braces W here here' R x₂ y₂) :
    Braces W here here' R (if p then x₁ else x₂) (if q then y₁ else y₂) :=
  rel_ite hpq h₁ h₂

/-- Changes to the store go together if they lead to stores that do. -/
theorem braces_withStore {f : Store → α × Store} {g : Store → α' × Store}
    (hf : ∀ {s s'}, s.Braced W s' → ∃ W', W <+: W' ∧ R W' (f s).1 (g s').1 ∧
      (f s).2.Braced W' (g s').2) :
    Braces W here here' R (withStore f) (withStore g) := by
  intro m m' hm
  obtain ⟨W', hW, hvalue, hstore⟩ := hf hm.store
  exact .ok hW hvalue (hm.withStore hW hstore)

/-- Both runs make a scope inside the one where they are. -/
theorem braces_newScope {parent parent' : ScopeId} (h : W.Stands parent parent') :
    Braces W here here' Twinning.Twins (newScope parent) (newScope parent') := by
  apply braces_withStore
  intro s s' hs
  exact ⟨_, List.prefix_append _ _, hs.twins_new, hs.addChild h⟩

/-- A variable is read alike in both runs. -/
theorem braces_readVariable (name : String) (line : Nat) :
    Braces W here here' Value.Braced (readVariable name line) (readVariable name line) := by
  intro m m' hm
  have hget := hm.store.get? hm.stands name
  rw [← hm.scope, ← hm.scope'] at hget
  unfold readVariable
  generalize m.store.get? m.scope name = found at hget
  generalize m'.store.get? m'.scope name = found' at hget
  cases hget with
  | some hv => exact .ok (List.prefix_refl _) hv hm
  | none => exact .error (.fault ⟨.undefinedVariable name, line⟩) (List.prefix_refl _) hm

/-- A variable is assigned to alike in both runs. -/
theorem braces_writeVariable (name : String) {v v' : Value} (hv : v.Braced W v') (line : Nat) :
    Braces W here here' (fun _ => Eq) (writeVariable name v line)
      (writeVariable name v' line) := by
  intro m m' hm
  have howner := hm.store.owner? hm.stands name
  rw [← hm.scope, ← hm.scope'] at howner
  rw [writeVariable_eq, writeVariable_eq]
  generalize m.store.owner? m.scope name = found at howner
  generalize m'.store.owner? m'.scope name = found' at howner
  have hW := List.prefix_refl W
  cases howner with
  | some hid => exact .ok hW rfl (hm.withStore hW (hm.store.define hid name hv))
  | none => exact .error (.fault ⟨.undefinedVariable name, line⟩) hW hm

/-- Nothing is declared in an idle scope, so this is about twins. -/
theorem braces_declareVariable (hhere : W.Twins here here') (name : String) {v v' : Value}
    (hv : v.Braced W v') :
    Braces W here here' (fun _ => Eq) (declareVariable name v) (declareVariable name v') := by
  intro m m' hm
  have hid : W.Twins m.scope m'.scope := by
    rw [hm.scope, hm.scope']
    exact hhere
  have hW := List.prefix_refl W
  exact .ok hW rfl (hm.withStore hW (hm.store.define hid name hv))

/-- Actions that go together in two scopes do so where they run in these scopes. -/
theorem braces_inScope {id id' : ScopeId} (hid : W.Stands id id')
    (h : Braces W id id' R x y) : Braces W here here' R (inScope id x) (inScope id' y) := by
  intro m m' hm
  have haction := h (hm.withScope hid)
  unfold inScope
  dsimp only
  generalize x { m with scope := id } = result at haction
  generalize y { m' with scope := id' } = result' at haction
  cases haction with
  | ok hW ha hn => exact .ok hW ha (hm.comingBack hW hn)
  | error stop hW hn => exact .error stop hW (hm.comingBack hW hn)

/-- What the second run does inside added braces it does as the first run does it without them. -/
theorem braces_inIdle
    (h : ∀ {W' : Twinning} {id' : ScopeId}, W <+: W' → W'.Idle here id' →
      Braces W' here id' R x y) :
    Braces W here here' R x (get >>= fun m => newScope m.scope >>= fun id => inScope id y) := by
  intro m m' hm
  have hW := List.prefix_append W [.idle here]
  have hidle : Twinning.Idle (W ++ [.idle here]) here ⟨m'.store.scopes.size⟩ := by
    rw [Twinning.Idle, hm.store.scopes]
    exact List.getElem?_concat_length
  have hinside : Machine.Braced (W ++ [.idle here]) here ⟨m'.store.scopes.size⟩ m
      { m' with store := (m'.store.addChild m'.scope).2, scope := ⟨m'.store.scopes.size⟩ } := by
    refine ⟨?_, hm.scope, rfl, hidle.stands, hm.depth, hm.sink⟩
    rw [hm.scope']
    exact hm.store.addIdle hm.stands
  have haction := h hW hidle hinside
  show BracedResult W here here' R (x m)
    (inScope ⟨m'.store.scopes.size⟩ y { m' with store := (m'.store.addChild m'.scope).2 })
  unfold inScope
  dsimp only
  generalize x m = result at haction
  generalize y _ = result' at haction
  cases haction with
  | ok hW' ha hn => exact .ok (hW.trans hW') ha (hm.leavingIdle (hW.trans hW') hn)
  | error stop hW' hn => exact .error stop (hW.trans hW') (hm.leavingIdle (hW.trans hW') hn)

/-- Values that are the same up to braces are printed alike. -/
theorem braces_printLine {v v' : Value} (hv : v.Braced W v') :
    Braces W here here' (fun _ => Eq) (printLine v) (printLine v') := by
  rintro ⟨store, scope, depth, sink⟩ ⟨store', scope', depth', sink'⟩ hm
  obtain rfl : sink' = sink := hm.sink
  have hW := List.prefix_refl W
  unfold printLine
  dsimp only
  rw [hm.store.display_eq hv]
  generalize sink'.write (store.display v ++ "\n").toUTF8 = after
  obtain ⟨taken, fault⟩ := after
  have hafter : Machine.Braced W here here' ⟨store, scope, depth, taken⟩
      ⟨store', scope', depth', taken⟩ :=
    ⟨hm.store, hm.scope, hm.scope', hm.stands, hm.depth, rfl⟩
  cases fault with
  | none => exact .ok hW rfl hafter
  | some fault => exact .error (.sink fault) hW hafter

end Eval

end Quill
