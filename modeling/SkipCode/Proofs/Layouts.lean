import Mathlib.Data.List.Forall2
import SkipCode.Proofs.Parts

/-!
# The fields of a class and their stacks

The layouts of a table that was built from a program follow the bases of its classes
(`ClassTable.Built`). So the fields of a class are those of the declarations from its root down to
it, one behind the other (`chainSlots`), and their stacks are the numbers from 0 up to the end of
its layout, each once and in order (`stack_chainSlots`). A field that is found in a class is one of
them.
-/

namespace SkipCode

open Source (ClassDecl FieldDecl)

/-- A mapping succeeds exactly if each item does. -/
theorem except_mapM_ok {ε α β : Type} {f : α → Except ε β} {xs : List α} {ys : List β} :
    xs.mapM f = .ok ys ↔ List.Forall₂ (fun x y => f x = .ok y) xs ys := by
  induction xs generalizing ys with
  | nil =>
    rw [List.forall₂_nil_left_iff, List.mapM_nil]
    exact ⟨fun h => by cases h; rfl, fun h => by rw [h]; rfl⟩
  | cons x xs ih =>
    rw [List.mapM_cons, except_bind_ok]
    constructor
    · rintro ⟨y, first, h⟩
      obtain ⟨rest, others, h⟩ := except_bind_ok.1 h
      cases h
      exact .cons first (ih.1 others)
    · rintro (_ | ⟨first, others⟩)
      exact ⟨_, first, except_bind_ok.2 ⟨_, ih.2 others, rfl⟩⟩

namespace ClassTable

/-- The declarations from the root of a class down to it. -/
inductive Ancestry (decls : List ClassDecl) : ClassDecl → List ClassDecl → Prop
  | root {d} : d.base = none → Ancestry decls d [d]
  | step {d base parent chain} : d.base = some base → find? decls base = some parent →
      Ancestry decls parent chain → Ancestry decls d (chain ++ [d])

/-- The number of instance fields that some classes declare. -/
def fieldCount (chain : List ClassDecl) : Nat :=
  (chain.map fun c => c.instanceFields.length).sum

/-- An empty chain has no fields. -/
@[simp] theorem fieldCount_nil : fieldCount [] = 0 := rfl

/-- The fields of a chain are the first class's and the others'. -/
@[simp] theorem fieldCount_cons (d : ClassDecl) (chain : List ClassDecl) :
    fieldCount (d :: chain) = d.instanceFields.length + fieldCount chain := by
  simp [fieldCount]

/-- Chains one behind the other have their fields together. -/
@[simp] theorem fieldCount_append (first second : List ClassDecl) :
    fieldCount (first ++ second) = fieldCount first + fieldCount second := by
  simp [fieldCount]

/-- The fields of a class with their stacks; `chain` has the declarations from its root down to
it. -/
def chainSlots : (start : Nat) → (chain : List ClassDecl) → List FieldSlot
  | _, [] => []
  | start, d :: chain => fieldSlots d start ++ chainSlots (start + d.instanceFields.length) chain

/-- A class has a slot for each of its fields. -/
theorem length_fieldSlots (d : ClassDecl) (start : Nat) :
    (fieldSlots d start).length = d.instanceFields.length := by
  simp [fieldSlots]

/-- The stacks of a class follow each other from its start. -/
theorem stack_fieldSlots (d : ClassDecl) (start : Nat) :
    (fieldSlots d start).map (·.stack) = List.range' start d.instanceFields.length := by
  refine List.ext_getElem (by simp [fieldSlots]) fun i h₁ h₂ => ?_
  simp [fieldSlots]

/-- A longer chain goes on with the stacks behind the shorter one's. -/
theorem chainSlots_append (start : Nat) (first second : List ClassDecl) :
    chainSlots start (first ++ second) =
      chainSlots start first ++ chainSlots (start + fieldCount first) second := by
  induction first generalizing start with
  | nil => rfl
  | cons d rest ih =>
    simp only [List.cons_append, chainSlots, ih, List.append_assoc, fieldCount_cons, Nat.add_assoc]

/-- The stacks of the fields of a class are consecutive. -/
theorem stack_chainSlots (start : Nat) (chain : List ClassDecl) :
    (chainSlots start chain).map (·.stack) = List.range' start (fieldCount chain) := by
  induction chain generalizing start with
  | nil => rfl
  | cons d rest ih =>
    rw [chainSlots, List.map_append, stack_fieldSlots, ih, fieldCount_cons, List.range'_append_1]

/-- A slot of a class belongs to a field that it declares. -/
theorem mem_fieldSlots {d : ClassDecl} {start : Nat} {slot : FieldSlot}
    (h : slot ∈ fieldSlots d start) :
    slot.owner = d.name ∧ ∃ f ∈ d.instanceFields, f.name = slot.name := by
  obtain ⟨i, hi, e⟩ := List.mem_mapIdx.1 h
  rw [← e]
  exact ⟨rfl, _, List.getElem_mem hi, rfl⟩

/-- So does a slot of a chain. -/
theorem mem_chainSlots {start : Nat} {chain : List ClassDecl} {slot : FieldSlot}
    (h : slot ∈ chainSlots start chain) :
    ∃ d ∈ chain, slot.owner = d.name ∧ ∃ f ∈ d.instanceFields, f.name = slot.name := by
  induction chain generalizing start with
  | nil => cases h
  | cons d rest ih =>
    rcases List.mem_append.1 h with h | h
    · exact ⟨d, List.mem_cons_self .., mem_fieldSlots h⟩
    · obtain ⟨d', mem, h⟩ := ih h
      exact ⟨d', List.mem_cons_of_mem _ mem, h⟩

/-- A class that was found has the name it was looked for by. -/
theorem name_of_find? {decls : List ClassDecl} {name : String} {d : ClassDecl}
    (h : find? decls name = some d) : d.name = name := by
  simpa using List.find?_some h

namespace Ancestry

variable {decls : List ClassDecl} {d x : ClassDecl} {chain pre post : List ClassDecl}

/-- A chain that was walked leads from its root to the class. -/
theorem ofAncestry {steps : Nat} {path : List String}
    (h : ancestry decls steps path d = .ok chain) : Ancestry decls d chain := by
  induction steps generalizing path d chain with
  | zero => cases h
  | succ steps ih =>
    rw [ancestry] at h
    split at h
    · next e =>
      cases h
      exact .root e
    · next base e =>
      split at h
      · cases h
      · next parent found =>
        dsimp only at h
        split at h
        · cases h
        · obtain ⟨above, habove, h⟩ := except_bind_ok.1 h
          cases h
          exact .step e found (ih habove)

/-- It ends in the class itself. -/
theorem ends (h : Ancestry decls d chain) : chain = chain.dropLast ++ [d] := by
  cases h <;> simp

/-- The classes above one of the chain are the chain up to it. -/
theorem upTo (h : Ancestry decls d (pre ++ x :: post)) : Ancestry decls x (pre ++ [x]) := by
  generalize e : pre ++ x :: post = chain at h
  induction h generalizing post with
  | @root d base =>
    have : pre = [] ∧ x = d := by
      cases pre <;> simp_all
    obtain ⟨rfl, rfl⟩ := this
    exact .root base
  | @step d base parent chain hbase found above ih =>
    rcases List.eq_nil_or_concat post with rfl | ⟨post, last, rfl⟩
    · obtain ⟨rfl, last⟩ := List.append_inj' e rfl
      obtain rfl : x = d := by simpa using last
      exact .step hbase found above
    · rw [List.concat_eq_append, ← List.cons_append, ← List.append_assoc] at e
      exact ih (List.append_inj' e rfl).1

/-- A class of the chain is the one that its name is looked up to. -/
theorem find (h : Ancestry decls d chain) (found : find? decls d.name = some d) (mem : x ∈ chain) :
    find? decls x.name = some x := by
  induction h with
  | root =>
    rw [List.mem_singleton.1 mem]
    exact found
  | step _ parent _ ih =>
    rcases List.mem_append.1 mem with mem | mem
    · exact ih (by rw [name_of_find? parent]; exact parent) mem
    · rw [List.mem_singleton.1 mem]
      exact found

/-- A class has one chain. -/
theorem unique (h : Ancestry decls d chain) {other : List ClassDecl}
    (h' : Ancestry decls d other) : chain = other := by
  induction h generalizing other with
  | root base =>
    cases h' with
    | root => rfl
    | step base' =>
      rw [base] at base'
      cases base'
  | step base found _ ih =>
    cases h' with
    | root base' =>
      rw [base] at base'
      cases base'
    | step base' found' above =>
      rw [base] at base'
      cases base'
      rw [found] at found'
      cases found'
      rw [ih above]

end Ancestry

/-- The layouts are those of the declarations. -/
def Built (t : ClassTable) : Prop :=
  List.Forall₂ (fun d l => ∃ chain, Ancestry t.decls d chain ∧ l = layoutOf chain d) t.decls
    t.layouts

/-- What is built is a table of layouts. -/
theorem built_build {decls : List ClassDecl} {t : ClassTable} (h : build decls = .ok t) :
    t.Built := by
  obtain ⟨_, -, h⟩ := except_bind_ok.1 h
  obtain ⟨layouts, each, h⟩ := except_bind_ok.1 h
  cases h
  refine (except_mapM_ok.1 each).imp fun d l h => ?_
  obtain ⟨chain, habove, h⟩ := except_bind_ok.1 h
  cases h
  exact ⟨chain, .ofAncestry habove, rfl⟩

/-- The declarations that an instance of a class has its fields from. -/
def Chain (t : ClassTable) (className : String) (chain : List ClassDecl) : Prop :=
  ∃ d, find? t.decls className = some d ∧ Ancestry t.decls d chain

/-- A name has one chain. -/
theorem Chain.unique {t : ClassTable} {className : String} {chain other : List ClassDecl}
    (h : t.Chain className chain) (h' : t.Chain className other) : chain = other := by
  obtain ⟨d, found, above⟩ := h
  obtain ⟨d', found', above'⟩ := h'
  rw [found] at found'
  cases found'
  exact above.unique above'

/-- A class of the chain has the chain up to it. -/
theorem Chain.upTo {t : ClassTable} {className : String} {pre post : List ClassDecl} {x : ClassDecl}
    (h : t.Chain className (pre ++ x :: post)) : t.Chain x.name (pre ++ [x]) := by
  obtain ⟨d, found, above⟩ := h
  refine ⟨x, above.find ?_ (by simp), above.upTo⟩
  rwa [name_of_find? found]

/-- The classes of a chain are found by their names. -/
theorem Chain.find {t : ClassTable} {className : String} {chain : List ClassDecl} {x : ClassDecl}
    (h : t.Chain className chain) (mem : x ∈ chain) : find? t.decls x.name = some x := by
  obtain ⟨d, found, above⟩ := h
  exact above.find (by rwa [name_of_find? found]) mem

namespace Built

variable {t : ClassTable} {className : String}

/-- A layout that is there is the one of its chain. -/
theorem layout (built : t.Built) {l : ClassLayout} (h : t.layout className = .ok l) :
    ∃ d chain, t.Chain className chain ∧ Ancestry t.decls d chain ∧ l = layoutOf chain d := by
  unfold ClassTable.layout at h
  split at h
  · next found =>
    cases h
    -- The names of the two lists are the same, so the first match in both is at the same place.
    have first : ∀ {decls layouts}, List.Forall₂ (fun d l =>
        ∃ chain, Ancestry t.decls d chain ∧ l = layoutOf chain d) decls layouts →
        layouts.find? (fun l => l.name == className) = some l →
        ∃ d chain, find? decls className = some d ∧ Ancestry t.decls d chain ∧
          l = layoutOf chain d := by
      intro decls layouts all found
      induction all with
      | nil => cases found
      | @cons d l' decls layouts one _ ih =>
        obtain ⟨chain, above, rfl⟩ := one
        rw [List.find?_cons] at found
        rw [find?, List.find?_cons]
        by_cases same : d.name = className
        · simp only [layoutOf, same, BEq.rfl] at found ⊢
          cases found
          exact ⟨d, chain, rfl, above, by simp [same]⟩
        · simp only [layoutOf, beq_eq_false_iff_ne.2 same] at found ⊢
          exact ih found
    obtain ⟨d, chain, hd, above, e⟩ := first built found
    exact ⟨d, chain, ⟨d, hd, above⟩, above, e⟩
  · cases h

/-- A class's stacks end behind all fields of its chain. -/
theorem stackEnd {d : ClassDecl} {chain : List ClassDecl} (above : Ancestry t.decls d chain) :
    (layoutOf chain d).stackEnd = fieldCount chain := by
  have e := above.ends
  generalize chain.dropLast = above at e
  subst e
  simp [ClassLayout.stackEnd, layoutOf, length_fieldSlots, fieldCount]

/-- The own fields of a class of a chain, by their place in it. -/
theorem fields (built : t.Built) {pre post : List ClassDecl} {x : ClassDecl}
    (chain : t.Chain className (pre ++ x :: post)) {l : ClassLayout}
    (h : t.layout x.name = .ok l) : l.fields = fieldSlots x (fieldCount pre) := by
  obtain ⟨d, chain', hchain, above, rfl⟩ := built.layout h
  obtain rfl := hchain.unique chain.upTo
  have e := above.ends
  rw [List.dropLast_concat] at e
  obtain ⟨-, e⟩ := List.append_inj' e rfl
  cases e
  simp [layoutOf, fieldCount]

/-- The fields of a class are those of its chain. -/
theorem allFields (built : t.Built) {fields : List FieldSlot}
    (h : t.allFields className = .ok fields) :
    ∃ chain, t.Chain className chain ∧ fields = chainSlots 0 chain := by
  obtain ⟨l, hl, h⟩ := except_bind_ok.1 h
  obtain ⟨parts, hparts, h⟩ := except_bind_ok.1 h
  cases h
  obtain ⟨d, chain, hchain, -, rfl⟩ := built.layout hl
  refine ⟨chain, hchain, ?_⟩
  have each := except_mapM_ok.1 hparts
  -- What is left of the chain is generalized; the part that is done says where its stacks start.
  suffices ∀ pre post, pre ++ post = chain → ∀ parts, List.Forall₂ (fun name part =>
      (do return (← t.layout name).fields : Except LowerError (List FieldSlot)) = .ok part)
        (post.map (·.name)) parts → parts.flatten = chainSlots (fieldCount pre) post from
    this [] chain rfl parts each
  intro pre post
  induction post generalizing pre with
  | nil =>
    intro _ parts all
    cases all
    rfl
  | cons x post ih =>
    rintro rfl parts (_ | ⟨first, others⟩)
    obtain ⟨l, hl, e⟩ := except_bind_ok.1 first
    cases e
    rw [List.flatten_cons, built.fields hchain hl, chainSlots,
      ih (pre ++ [x]) (by simp) _ others, fieldCount_append]
    simp

/-- A field that is found in a class is one of its fields. -/
theorem findField (built : t.Built) {field : String} {slot : FieldSlot}
    (h : t.findField className field = .ok slot) :
    slot.name = field ∧ ∃ chain, t.Chain className chain ∧ slot ∈ chainSlots 0 chain := by
  obtain ⟨l, hl, h⟩ := except_bind_ok.1 h
  obtain ⟨layouts, hlayouts, h⟩ := except_bind_ok.1 h
  split at h
  · next slot' found =>
    cases h
    obtain ⟨d, chain, hchain, -, rfl⟩ := built.layout hl
    obtain ⟨l, mem, found⟩ := List.exists_of_findSome?_eq_some found
    -- the layouts are searched from the class upwards
    obtain ⟨name, hname, hl'⟩ : ∃ name ∈ (layoutOf chain d).chain.reverse,
        t.layout name = .ok l := by
      have all := except_mapM_ok.1 hlayouts
      obtain ⟨i, hi, e⟩ := List.getElem_of_mem mem
      have hi' := all.length_eq ▸ hi
      exact ⟨_, List.getElem_mem hi', by rw [← e]; exact all.get hi' hi⟩
    obtain ⟨x, hx, rfl⟩ := List.mem_map.1 (List.mem_reverse.1 hname)
    obtain ⟨pre, post, rfl⟩ := List.append_of_mem hx
    rw [built.fields hchain hl'] at found
    refine ⟨by simpa using List.find?_some found, _, hchain, ?_⟩
    rw [chainSlots_append, chainSlots, Nat.zero_add]
    exact List.mem_append_right _ (List.mem_append_left _ (List.mem_of_find?_eq_some found))
  · cases h

/-- The stack of a field of a class is below the end of its layout. -/
theorem stack_lt {l : ClassLayout} {slot : FieldSlot} {chain : List ClassDecl} (built : t.Built)
    (hl : t.layout className = .ok l) (hchain : t.Chain className chain)
    (mem : slot ∈ chainSlots 0 chain) : slot.stack < l.stackEnd := by
  obtain ⟨d, chain', hchain', above, rfl⟩ := built.layout hl
  obtain rfl := hchain.unique hchain'
  rw [stackEnd above]
  have : slot.stack ∈ (chainSlots 0 chain).map (·.stack) := List.mem_map_of_mem mem
  rw [stack_chainSlots] at this
  simpa using this

/-- Every field of a class has a declaration. -/
theorem fieldDecl {slot : FieldSlot} {chain : List ClassDecl}
    (hchain : t.Chain className chain) (mem : slot ∈ chainSlots 0 chain) :
    ∃ f, t.fieldDecl slot = .ok f := by
  obtain ⟨x, hx, owner, f, hf, name⟩ := mem_chainSlots mem
  have found : t.decl slot.owner = .ok x := by
    rw [ClassTable.decl, owner, hchain.find hx]
  unfold ClassTable.fieldDecl
  rw [found]
  simp only [Bind.bind, Except.bind]
  cases h : x.instanceFields.find? fun f => f.name == slot.name with
  | some f => exact ⟨f, rfl⟩
  | none =>
    have := List.find?_eq_none.1 h f hf
    simp [name] at this

end Built

end ClassTable

end SkipCode
