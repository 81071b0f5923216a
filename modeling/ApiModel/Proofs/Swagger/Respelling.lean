import ApiModel.Proofs.Swagger.Lossless
import Mathlib.Data.List.Pairwise

namespace ApiModel

namespace Value

def wordsFor : Bool → List String
  | false => ["0", "off", "f", "false", "n", "no"]
  | true => ["1", "on", "t", "true", "y", "yes"]

inductive Spells : Value → Bool → Prop
  | bool (b : Bool) : Spells (.scalar (.bool b)) b
  | int (b : Bool) : Spells (.scalar (.int b.toInt)) b
  | float (x : Binary64) (b : Bool) (whole : x.toInt? = some b.toInt) : Spells (.scalar (.float x)) b
  | word (s : String) (b : Bool)
      (known : s.toList.map Char.toLower ∈ (wordsFor b).map String.toList) : Spells (.scalar (.str s)) b

end Value

def NodeKind.defaultText : NodeKind → String
  | .document => Document.defaultVersion
  | _ => ""

namespace Shape

def Blank (kind : NodeKind) : Shape → Value → Prop
  | anything, v => v.text? = some kind.defaultText ∨ kind = .info ∧ v = .null
  | text, v => v = .str ""
  | truth, v => v.Spells false
  | texts, v => v = .list []
  | looseTexts, v => v = .null ∨ v = .list []
  | node _, _ => False
  | optional _, v => v = .null
  | nodes _, v => v = .list []
  | looseNodes _, v => v = .null ∨ v = .list []
  | table _, v => v = .null ∨ v = .map []
  | tableBesideExtensions _, v =>
    ∃ fields, v = .map (Entries.ofFields fields) ∧ ∀ f ∈ fields, f.1.startsWith "x-"
  | additional, v => v = .null

inductive Respelled : Shape → Value → Value → Prop
  | bareText (s : Str) : Respelled .looseTexts (.str s) (.list [.str s])
  | bareNode (kind : NodeKind) (m : Entries) : Respelled (.looseNodes kind) (.map m) (.list [.map m])
  | truth (v v' : Value) (b : Bool) (spells : v.Spells b) (spells' : v'.Spells b) :
      Respelled .truth v v'
  | flag (v v' : Value) (b : Bool) (spells : v.Spells b) (spells' : v'.Spells b) :
      Respelled .additional v v'

/-- A place for a node of the kind in a value of the shape, given as the value around what stands there. -/
inductive Place : Shape → NodeKind → (Value → Value) → Prop
  | node (kind : NodeKind) : Place (.node kind) kind fun u => u
  | optional (kind : NodeKind) : Place (.optional kind) kind fun u => u
  | item (kind : NodeKind) (l r : List Value) : Place (.nodes kind) kind fun u => .list (l ++ u :: r)
  | onlyItem (kind : NodeKind) : Place (.looseNodes kind) kind fun u => u
  | looseItem (kind : NodeKind) (l r : List Value) :
      Place (.looseNodes kind) kind fun u => .list (l ++ u :: r)
  | entry (kind : NodeKind) (l : Entries) (key : Str) (r : Entries) :
      Place (.table kind) kind fun u => .map (l ++ (.str key, u) :: r)
  | keptEntry (kind : NodeKind) (l : Entries) (key : Str) (r : Entries)
      (kept : ¬key.startsWith "x-") :
      Place (.tableBesideExtensions kind) kind fun u => .map (l ++ (.str key, u) :: r)
  | additional : Place .additional .schema fun u => u

end Shape

def NodeKind.unknowns (kind : NodeKind) (m : Entries) : Entries :=
  m.filter fun e => !kind.names.flatten.any fun a : String => e.1 = .str a

/-- One rewriting of a value that is read as a node of the kind, at the node itself or inside it. No
    field is given under two names, before or after. -/
inductive Respells : NodeKind → Value → Value → Prop
  /-- Entries change places, the unknown ones not among themselves. -/
  | order (kind : NodeKind) (m m' : Entries) (perm : m.Perm m')
      (unknown : kind.unknowns m = kind.unknowns m') (single : kind.SingleNames m)
      (nodup : (m.map Prod.fst).Nodup) : Respells kind (.map m) (.map m')
  | name (kind : NodeKind) (f : FieldRule) (field : f ∈ kind.fields) (l r : Entries)
      (once : f.given? (l ++ r) = none) (a b : String) (nameA : a ∈ f.names) (nameB : b ∈ f.names)
      (v : Value) : Respells kind (.map (l ++ (.str a, v) :: r)) (.map (l ++ (.str b, v) :: r))
  /-- An absent field is given as what it is when it is absent. -/
  | blank (kind : NodeKind) (f : FieldRule) (field : f ∈ kind.fields) (l r : Entries)
      (once : f.given? (l ++ r) = none) (a : String) (nameA : a ∈ f.names) (free : f.required = false)
      (v : Value) (blank : f.shape.Blank kind v) :
      Respells kind (.map (l ++ r)) (.map (l ++ (.str a, v) :: r))
  | form (kind : NodeKind) (f : FieldRule) (field : f ∈ kind.fields) (l r : Entries)
      (once : f.given? (l ++ r) = none) (a : String) (nameA : a ∈ f.names) (v v' : Value)
      (respelled : f.shape.Respelled v v') :
      Respells kind (.map (l ++ (.str a, v) :: r)) (.map (l ++ (.str a, v') :: r))
  | inside (kind : NodeKind) (f : FieldRule) (field : f ∈ kind.fields) (l r : Entries)
      (once : f.given? (l ++ r) = none) (a : String) (nameA : a ∈ f.names) (k : NodeKind)
      (hole : Value → Value) (place : f.shape.Place k hole) (u u' : Value) (below : Respells k u u') :
      Respells kind (.map (l ++ (.str a, hole u) :: r)) (.map (l ++ (.str a, hole u') :: r))

def SameUpToSpelling (kind : NodeKind) : Value → Value → Prop := Relation.EqvGen (Respells kind)

variable {kind : NodeKind} {m m' l r : Entries} {f g : FieldRule} {a : String} {v : Value}

theorem Respells.maps {v v' : Value} (step : Respells kind v v') :
    ∃ m m', v = .map m ∧ v' = .map m' := by
  cases step <;> exact ⟨_, _, rfl, rfl⟩

namespace Entries

theorem get?_append_cons (free : get? (l ++ r) a = none) (key : String) :
    get? (l ++ (.str a, v) :: r) key = if a = key then some v else get? (l ++ r) key := by
  simp only [get?, List.find?_append, List.find?_cons, Option.map_eq_none_iff, Option.or_eq_none_iff]
    at free ⊢
  by_cases same : a = key
  · subst same
    simp [free.1]
  · simp [same]

/-- The first name of a field that is there, and its value, depend on the values under its names only. -/
theorem field?_congr {names : List String} (same : ∀ a ∈ names, get? m a = get? m' a) :
    field? m names = field? m' names := by
  induction names with
  | nil => rfl
  | cons a names ih =>
    obtain ⟨first, same⟩ := List.forall_mem_cons.1 same
    rw [field?, field?, first, ih same]

theorem field?_once {names : List String}
    (once : (names.findSome? fun name : String => get? (l ++ r) name) = none)
    (name : a ∈ names) : field? (l ++ (.str a, v) :: r) names = some (a, v) := by
  rw [List.findSome?_eq_none_iff] at once
  have given := get?_append_cons (v := v) (once a name)
  induction names with
  | nil => contradiction
  | cons b names ih =>
    obtain ⟨absent, once⟩ := List.forall_mem_cons.1 once
    rw [field?, given]
    by_cases same : a = b
    · rw [if_pos same, same]
    · rw [if_neg same, absent]
      exact ih once ((List.mem_cons.1 name).resolve_left same)

theorem get?_cons_of_ne {e : Scalar × Value} {key : String} (other : e.1 ≠ .str key) :
    get? (e :: m) key = get? m key := by
  rw [get?, List.find?_cons_of_neg (by simpa using other), get?]

theorem get?_perm (perm : m.Perm m') (nodup : (m.map Prod.fst).Nodup) (key : String) :
    get? m key = get? m' key := by
  induction perm with
  | nil => rfl
  | cons e _ ih =>
    have rest := ih (List.nodup_cons.1 nodup).2
    by_cases same : e.1 = .str key
    · simp [get?, same]
    · rw [get?_cons_of_ne same, get?_cons_of_ne same, rest]
  | swap e e' m =>
    have apart : e'.1 ≠ e.1 := fun same => (List.nodup_cons.1 nodup).1 (same ▸ List.mem_cons_self ..)
    by_cases same : e.1 = .str key
    · have other : e'.1 ≠ .str key := same ▸ apart
      rw [get?_cons_of_ne other]
      simp [get?, same]
    · rw [get?_cons_of_ne same]
      by_cases same' : e'.1 = .str key
      · simp [get?, same']
      · rw [get?_cons_of_ne same', get?_cons_of_ne same', get?_cons_of_ne same]
  | trans first _ ih ih' => exact (ih nodup).trans (ih' ((first.map Prod.fst).nodup_iff.1 nodup))

theorem mem_taken {key : String} : key ∈ taken m kind.names ↔
    ∃ f ∈ kind.fields, ∃ v, field? m f.names = some (key, v) := by
  simp [taken, NodeKind.names]

theorem extras_eq (m : Entries) (names : List (List String)) :
    extras m names = m.filter fun e => ∀ key ∈ taken m names, e.1 ≠ .str key := by
  refine List.filter_congr fun e _ => ?_
  change (!(taken m names).any fun key => decide (e.1 = .str key)) = _
  rw [Bool.eq_iff_iff]
  simp

theorem ne_of_get?_eq_none {e : Scalar × Value} {key : String} (none_ : get? m key = none)
    (mem : e ∈ m) : e.1 ≠ .str key := by
  simp only [get?, Option.map_eq_none_iff, List.find?_eq_none, decide_eq_true_eq] at none_
  exact none_ e mem

end Entries

namespace NodeKind

theorem eq_of_name (fieldF : f ∈ kind.fields) (fieldG : g ∈ kind.fields) (nameF : a ∈ f.names)
    (nameG : a ∈ g.names) : f = g := by
  have apart := (List.nodup_flatten.1 kind.nodup_names).2
  rw [names, List.pairwise_map] at apart
  have : Std.Symm fun f g : FieldRule => f.names.Disjoint g.names :=
    ⟨fun _ _ apart _ nameG nameF => apart nameF nameG⟩
  by_contra other
  exact apart.forall fieldF fieldG other nameF nameG

section Once

variable (field : f ∈ kind.fields) (once : f.given? (l ++ r) = none) (name : a ∈ f.names)

include field once name

theorem field?_other (fieldG : g ∈ kind.fields) (other : g ≠ f) :
    Entries.field? (l ++ (.str a, v) :: r) g.names = Entries.field? (l ++ r) g.names := by
  have absent := List.findSome?_eq_none_iff.1 once a name
  refine Entries.field?_congr fun b nameG => ?_
  rw [Entries.get?_append_cons absent, if_neg]
  rintro rfl
  exact other (eq_of_name fieldG field nameG name)

theorem extras_once : Entries.extras (l ++ (.str a, v) :: r) kind.names =
    Entries.extras (l ++ r) kind.names := by
  have taken (key : String) : key ∈ Entries.taken (l ++ (.str a, v) :: r) kind.names ↔
      key = a ∨ key ∈ Entries.taken (l ++ r) kind.names := by
    rw [Entries.mem_taken, Entries.mem_taken]
    constructor
    · rintro ⟨g, fieldG, u, first⟩
      by_cases other : g = f
      · subst other
        rw [Entries.field?_once once name] at first
        cases first
        exact .inl rfl
      · rw [field?_other field once name fieldG other] at first
        exact .inr ⟨g, fieldG, u, first⟩
    · rintro (rfl | ⟨g, fieldG, u, first⟩)
      · exact ⟨f, field, v, Entries.field?_once once name⟩
      · refine ⟨g, fieldG, u, ?_⟩
        rw [field?_other field once name fieldG, first]
        rintro rfl
        have nothing := Entries.field?_map_snd (l ++ r) g.names
        rw [first] at nothing
        exact nomatch nothing.trans once
  have absent := List.findSome?_eq_none_iff.1 once a name
  have same : ∀ e ∈ l ++ r,
      decide (∀ key ∈ Entries.taken (l ++ (.str a, v) :: r) kind.names, e.1 ≠ .str key) =
        decide (∀ key ∈ Entries.taken (l ++ r) kind.names, e.1 ≠ .str key) := by
    intro e mem
    have apart := Entries.ne_of_get?_eq_none absent mem
    simp [taken, apart]
  rw [Entries.extras_eq, Entries.extras_eq, ← List.filter_congr same, List.filter_append,
    List.filter_append, List.filter_cons_of_neg (by simp [taken])]

end Once

theorem mem_flatten_names {key : String} :
    key ∈ kind.names.flatten ↔ ∃ f ∈ kind.fields, key ∈ f.names := by
  simp [names]

/-- Where no field is given under two names, what no field takes is what no field could take. -/
theorem extras_eq_unknowns (single : kind.SingleNames m) :
    Entries.extras m kind.names = kind.unknowns m := by
  have taken (key : String) (given : Entries.get? m key ≠ none) :
      key ∈ Entries.taken m kind.names ↔ key ∈ kind.names.flatten := by
    rw [Entries.mem_taken, mem_flatten_names]
    constructor
    · rintro ⟨f, field, v, first⟩
      exact ⟨f, field, (Entries.field?_mem first).1⟩
    · rintro ⟨f, field, name⟩
      have found := Entries.field?_map_snd m f.names
      cases first : Entries.field? m f.names with
      | none =>
        rw [first] at found
        exact absurd (List.findSome?_eq_none_iff.1 found.symm key name) given
      | some e =>
        obtain ⟨nameE, get⟩ := Entries.field?_mem first
        have one := single f field e.1 nameE key name (get ▸ Option.some_ne_none _) given
        exact ⟨f, field, e.2, one ▸ first⟩
  rw [Entries.extras_eq, unknowns]
  refine List.filter_congr fun e mem => ?_
  have given (key : String) (same : e.1 = .str key) : Entries.get? m key ≠ none := fun none_ =>
    Entries.ne_of_get?_eq_none none_ mem same
  rw [Bool.eq_iff_iff, decide_eq_true_eq, Bool.not_eq_true', List.any_eq_false]
  simp only [decide_eq_true_eq]
  constructor
  · exact fun free key name same => free key ((taken key (given key same)).2 name) same
  · exact fun free key name same => free key ((taken key (given key same)).1 name) same

end NodeKind

end ApiModel
