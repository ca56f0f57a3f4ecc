import Mathlib.Data.List.Chain
import Mathlib.Data.List.Find
import Mathlib.Data.List.Nodup
import Mathlib.Data.List.Perm.Subperm
import Mathlib.Logic.Relation
import SkipCode.Proofs.Layouts

/-!
# Which classes can be laid out, and how

Bases may be declared before or behind their classes, and a layout needs that of the base first.
Here it is told from the declarations alone when that comes to an end (`Consistent`) and what comes
out.

* `Consistent.ancestry_ok`: where no chain is cyclic there are never more steps to the root than
  classes, so none of them is a cycle by mistake;
* `Built.findField_nearest`: a field is looked for from a class upward;
* `build_lays_out`: the table is built exactly of consistent declarations, whose order does not
  matter, and has for every class the fields from its root down to it.
-/

namespace SkipCode

open Source (ClassDecl)
open Relation (TransGen)

/-- A class declares an instance field of a name itself. -/
def Source.ClassDecl.Declares (d : ClassDecl) (field : String) : Prop :=
  ∃ f ∈ d.instanceFields, f.name = field

namespace ClassTable

/-- A class has another one for its base. -/
structure Extends (decls : List ClassDecl) (d parent : ClassDecl) : Prop where
  declared : d ∈ decls
  known : parent ∈ decls
  base : d.base = some parent.name

/-- Every class has a name of its own, every base is declared, and no class is above itself. -/
structure Consistent (decls : List ClassDecl) : Prop where
  distinct : (decls.map (·.name)).Nodup
  bases : ∀ d ∈ decls, ∀ base, d.base = some base → ∃ parent ∈ decls, parent.name = base
  acyclic : ∀ d, ¬ TransGen (Extends decls) d d

/-- The declared classes from a root down to a class, each the base of the next one. -/
structure RootPath (decls : List ClassDecl) (d : ClassDecl) (path : List ClassDecl) : Prop where
  declared : ∀ c ∈ path, c ∈ decls
  root : ∀ c ∈ path.head?, c.base = none
  linked : path.IsChain fun parent c => c.base = some parent.name
  ends : path.getLast? = some d

variable {decls others : List ClassDecl} {d parent : ClassDecl} {name className field : String}
  {path : List ClassDecl}

/-! ## Looking classes up -/

/-- The check for names passes exactly if they are distinct and new. -/
theorem checkDistinct_ok_iff {seen : List String} :
    checkDistinct seen decls = .ok () ↔
      (decls.map (·.name)).Nodup ∧ ∀ d ∈ decls, d.name ∉ seen := by
  -- on the declarations, with the names before them in `seen`
  induction decls generalizing seen with
  | nil => simp [checkDistinct]
  | cons d rest ih =>
    rw [checkDistinct, List.map_cons, List.nodup_cons]
    by_cases again : seen.contains d.name = true
    · rw [if_pos again]
      refine ⟨nofun, fun ⟨_, fresh⟩ => ?_⟩
      exact absurd (List.contains_iff_mem.1 again) (fresh d List.mem_cons_self)
    · rw [if_neg again, ih]
      have new : d.name ∉ seen := fun mem => again (List.contains_iff_mem.2 mem)
      constructor
      · rintro ⟨nodup, fresh⟩
        refine ⟨⟨fun mem => ?_, nodup⟩, List.forall_mem_cons.2 ⟨new, fun c mem seen => ?_⟩⟩
        · obtain ⟨c, mem, same⟩ := List.mem_map.1 mem
          exact fresh c mem (by rw [same]; exact List.mem_cons_self)
        · exact fresh c mem (List.mem_cons_of_mem _ seen)
      · rintro ⟨⟨apart, nodup⟩, fresh⟩
        refine ⟨nodup, fun c mem seen => ?_⟩
        rcases List.mem_cons.1 seen with same | seen
        · exact apart (same ▸ List.mem_map_of_mem mem)
        · exact fresh c (List.mem_cons_of_mem _ mem) seen

/-- Of distinct names a class is found exactly if it is declared. -/
theorem find?_eq_some_iff (distinct : (decls.map (·.name)).Nodup) :
    find? decls name = some d ↔ d ∈ decls ∧ d.name = name := by
  refine ⟨fun found => ⟨List.mem_of_find?_eq_some found, name_of_find? found⟩,
    fun ⟨mem, same⟩ => ?_⟩
  obtain ⟨c, found⟩ : ∃ c, find? decls name = some c :=
    Option.isSome_iff_exists.1 (List.find?_isSome.2 ⟨d, mem, beq_iff_eq.2 same⟩)
  rw [found, List.inj_on_of_nodup_map distinct (List.mem_of_find?_eq_some found) mem
    ((name_of_find? found).trans same.symm)]

/-- The order of declarations does not matter to finding one. -/
theorem find?_perm (distinct : (decls.map (·.name)).Nodup) (perm : others.Perm decls)
    (name : String) :
    find? others name = find? decls name := by
  have distinct' := ((perm.map (·.name)).nodup_iff).2 distinct
  ext d
  rw [find?_eq_some_iff distinct, find?_eq_some_iff distinct', perm.mem_iff]

/-! ## Chains of bases -/

namespace Ancestry

/-- A chain depends on what is found alone. -/
theorem congr (same : ∀ name, find? others name = find? decls name) (h : Ancestry decls d path) :
    Ancestry others d path := by
  induction h with
  | root base => exact .root base
  | step base found _ ih => exact .step base ((same _).trans found) ih

/-- A chain is a path from a root. -/
theorem rootPath (mem : d ∈ decls) (h : Ancestry decls d path) : RootPath decls d path := by
  -- on the ancestry: a class is put behind the path of its base
  induction h with
  | root base =>
    exact ⟨fun c h => List.mem_singleton.1 h ▸ mem, fun c h => by cases h; exact base,
      List.isChain_singleton _, rfl⟩
  | @step d base parent chain hbase found _ ih =>
    obtain ⟨declared, root, linked, ends⟩ := ih (List.mem_of_find?_eq_some found)
    have named := name_of_find? found
    refine ⟨List.forall_mem_append.2 ⟨declared, List.forall_mem_singleton.2 mem⟩, fun c first => ?_,
      List.isChain_append.2 ⟨linked, List.isChain_singleton _, fun a last c first => ?_⟩,
      List.getLast?_concat⟩
    · cases chain with
      | nil => cases ends
      | cons top rest => exact root c first
    · rw [ends] at last
      cases last
      cases first
      rw [hbase, named]

/-- The base of a class is nearer to the root. -/
theorem length_lt (distinct : (decls.map (·.name)).Nodup) {above : List ClassDecl}
    (link : Extends decls d parent) (h : Ancestry decls d path) (h' : Ancestry decls parent above) :
    above.length < path.length := by
  cases h with
  | root base => cases base.symm.trans link.base
  | step base found chain =>
    obtain rfl := Option.some.inj (base.symm.trans link.base)
    rw [(find?_eq_some_iff distinct).2 ⟨link.known, rfl⟩] at found
    cases found
    rw [h'.unique chain, List.length_append]
    exact Nat.lt_succ_self _

/-- Where every class has a root no class is above itself. -/
theorem acyclic (distinct : (decls.map (·.name)).Nodup)
    (rooted : ∀ d ∈ decls, ∃ path, Ancestry decls d path) : ¬ TransGen (Extends decls) d d := by
  -- the distance from the root falls on every step upward
  have falls {a b : ClassDecl} (up : TransGen (Extends decls) a b) : ∀ path above,
      Ancestry decls a path → Ancestry decls b above → above.length < path.length := by
    induction up with
    | single link => exact fun _ _ => length_lt distinct link
    | tail _ link ih =>
      intro path above ha hb
      obtain ⟨middle, hm⟩ := rooted _ link.declared
      exact Nat.lt_trans (length_lt distinct link hm hb) (ih path middle ha hm)
  intro up
  obtain ⟨path, h⟩ : ∃ path, Ancestry decls d path := by
    cases up with
    | single link => exact rooted d link.known
    | tail _ link => exact rooted d link.known
  exact Nat.lt_irrefl _ (falls up path path h h)

end Ancestry

/-- Going up from a class of consistent declarations comes to a root. The names on the way are all
different, so the steps last. -/
theorem Consistent.ancestry_ok (consistent : Consistent decls) (steps : Nat) (below : List String)
    (mem : d ∈ decls) (nodup : below.Nodup)
    (under : ∀ name ∈ below, ∃ c ∈ decls, c.name = name ∧ TransGen (Extends decls) c d)
    (enough : decls.length ≤ steps + below.length) :
    ∃ path, ancestry decls steps below d = .ok path := by
  induction steps generalizing d below with
  | zero =>
    -- with the class itself there would be more names than classes
    have fresh : d.name ∉ below := by
      intro met
      obtain ⟨c, hc, same, up⟩ := under _ met
      obtain rfl := List.inj_on_of_nodup_map consistent.distinct hc mem same
      exact consistent.acyclic c up
    have sub : d.name :: below ⊆ decls.map (·.name) := by
      refine List.cons_subset.2 ⟨List.mem_map_of_mem mem, fun name met => ?_⟩
      obtain ⟨c, hc, rfl, -⟩ := under name met
      exact List.mem_map_of_mem hc
    have := (List.Nodup.subperm (List.nodup_cons.2 ⟨fresh, nodup⟩) sub).length_le
    rw [List.length_cons, List.length_map] at this
    omega
  | succ steps ih =>
    rw [ancestry]
    split
    · exact ⟨_, rfl⟩
    · next base extending =>
      obtain ⟨parent, hparent, named⟩ := consistent.bases d mem base extending
      have found : find? decls base = some parent :=
        (find?_eq_some_iff consistent.distinct).2 ⟨hparent, named⟩
      have link : Extends decls d parent := ⟨mem, hparent, by rw [named]; exact extending⟩
      rw [found]
      have under' : ∀ name ∈ below ++ [d.name],
          ∃ c ∈ decls, c.name = name ∧ TransGen (Extends decls) c parent := by
        intro name met
        rcases List.mem_append.1 met with met | met
        · obtain ⟨c, hc, same, up⟩ := under name met
          exact ⟨c, hc, same, up.tail link⟩
        · exact ⟨d, mem, (List.mem_singleton.1 met).symm, .single link⟩
      have fresh : base ∉ below ++ [d.name] := by
        intro met
        obtain ⟨c, hc, same, up⟩ := under' base met
        obtain rfl :=
          List.inj_on_of_nodup_map consistent.distinct hc hparent (same.trans named.symm)
        exact consistent.acyclic c up
      have nodup' : (below ++ [d.name]).Nodup := by
        refine nodup.append (List.nodup_singleton _) (List.disjoint_singleton.2 fun met => ?_)
        obtain ⟨c, hc, same, up⟩ := under _ met
        obtain rfl := List.inj_on_of_nodup_map consistent.distinct hc mem same
        exact consistent.acyclic c up
      dsimp only
      rw [if_neg (by simpa using fresh)]
      obtain ⟨path, h⟩ :=
        ih _ hparent nodup' under' (by rw [List.length_append, List.length_singleton]; omega)
      exact ⟨path ++ [d], by rw [h]; rfl⟩

/-- A mapping succeeds if each item does. -/
theorem except_mapM_of_forall {ε α β : Type} {f : α → Except ε β} {xs : List α}
    (ok : ∀ x ∈ xs, ∃ y, f x = .ok y) : ∃ ys, xs.mapM f = .ok ys := by
  induction xs with
  | nil => exact ⟨[], rfl⟩
  | cons x xs ih =>
    obtain ⟨first, others⟩ := List.forall_mem_cons.1 ok
    obtain ⟨y, hy⟩ := first
    obtain ⟨ys, hys⟩ := ih others
    exact ⟨y :: ys, by rw [List.mapM_cons, hy, hys]; rfl⟩

/-- What is built declares what it was built from. -/
theorem decls_of_build {t : ClassTable} (h : build decls = .ok t) : t.decls = decls := by
  obtain ⟨_, -, h⟩ := except_bind_ok.1 h
  obtain ⟨layouts, -, h⟩ := except_bind_ok.1 h
  cases h
  rfl

/-- Each declaration of a table has a chain, and the layout that belongs to it. -/
theorem Built.layout_of_mem {t : ClassTable} (built : t.Built) (mem : d ∈ t.decls) :
    ∃ path, Ancestry t.decls d path ∧ layoutOf path d ∈ t.layouts := by
  have all := List.forall₂_iff_get.1 built
  obtain ⟨i, hi, rfl⟩ := List.getElem_of_mem mem
  have hi' : i < t.layouts.length := all.1 ▸ hi
  obtain ⟨path, above, e⟩ := all.2 i hi hi'
  exact ⟨path, above, e ▸ List.getElem_mem hi'⟩

/-- Only consistent declarations are built. -/
theorem consistent_of_build {t : ClassTable} (h : build decls = .ok t) : Consistent decls := by
  have built := built_build h
  have same := decls_of_build h
  obtain ⟨_, checked, -⟩ := except_bind_ok.1 h
  have distinct := (checkDistinct_ok_iff.1 checked).1
  have rooted : ∀ d ∈ decls, ∃ path, Ancestry decls d path := by
    intro d mem
    obtain ⟨path, above, -⟩ := built.layout_of_mem (same ▸ mem)
    exact ⟨path, same ▸ above⟩
  -- each class was followed up to a root, which a cycle has not
  refine ⟨distinct, fun d mem base extending => ?_, fun d => Ancestry.acyclic distinct rooted⟩
  obtain ⟨path, h⟩ := rooted d mem
  cases h with
  | root none' => cases none'.symm.trans extending
  | step extending' found _ =>
    obtain rfl := Option.some.inj (extending'.symm.trans extending)
    exact ⟨_, List.mem_of_find?_eq_some found, name_of_find? found⟩

/-- All of them are. -/
theorem Consistent.exists_build (consistent : Consistent decls) : ∃ t, build decls = .ok t := by
  have checked : checkDistinct [] decls = .ok () :=
    checkDistinct_ok_iff.2 ⟨consistent.distinct, fun _ _ => List.not_mem_nil⟩
  have each : ∀ d ∈ decls, ∃ l, (do
      return layoutOf (← ancestry decls decls.length [] d) d : Except LowerError ClassLayout) =
        .ok l := by
    intro d mem
    obtain ⟨path, h⟩ := consistent.ancestry_ok decls.length [] mem
      List.nodup_nil (List.forall_mem_nil _) (Nat.le_refl _)
    exact ⟨layoutOf path d, by rw [h]; rfl⟩
  obtain ⟨layouts, h⟩ := except_mapM_of_forall each
  exact ⟨⟨decls, layouts⟩, by rw [build, checked, h]; rfl⟩

/-- A table is built exactly when the declarations are consistent. -/
theorem build_ok_iff : (∃ t, build decls = .ok t) ↔ Consistent decls :=
  ⟨fun ⟨_, h⟩ => consistent_of_build h, Consistent.exists_build⟩

/-! ## Layouts -/

namespace Built

variable {t : ClassTable} {pre post : List ClassDecl} {c : ClassDecl}

/-- A class with a chain has a layout. -/
theorem layout_ok (built : t.Built) (found : find? t.decls className = some d)
    (above : Ancestry t.decls d path) : t.layout className = .ok (layoutOf path d) := by
  obtain ⟨path', above', mem⟩ := built.layout_of_mem (List.mem_of_find?_eq_some found)
  obtain ⟨l, hl⟩ : ∃ l, t.layout className = .ok l := by
    have named : (t.layouts.find? fun l => l.name == className).isSome = true :=
      List.find?_isSome.2 ⟨_, mem, beq_iff_eq.2 (name_of_find? found)⟩
    obtain ⟨l, hl⟩ := Option.isSome_iff_exists.1 named
    exact ⟨l, by rw [ClassTable.layout, hl]⟩
  obtain ⟨d', chain, hchain, above'', rfl⟩ := built.layout hl
  -- the layout belongs to the same declaration, for both end the one chain of the name
  obtain rfl := hchain.unique ⟨d, found, above⟩
  have e := above''.ends.symm.trans above.ends
  rw [List.append_cancel_left_eq, List.cons.injEq] at e
  rw [hl, e.1]

/-- A class that is not declared has no layout. -/
theorem layout_error (built : t.Built) (unknown : find? t.decls className = none) :
    t.layout className = .error (.defect (.unknownClass className)) := by
  cases h : t.layout className with
  | ok l =>
    obtain ⟨_, _, ⟨d, found, -⟩, -, -⟩ := built.layout h
    cases unknown.symm.trans found
  | error e =>
    unfold ClassTable.layout at h
    split at h
    · cases h
    · cases h
      rfl

/-- So has each class of the chain. -/
theorem chain_layout_ok (built : t.Built) (chain : t.Chain className path) (mem : c ∈ path) :
    ∃ l, t.layout c.name = .ok l := by
  obtain ⟨above, below, rfl⟩ := List.append_of_mem mem
  obtain ⟨d, found, h⟩ := chain.upTo
  exact ⟨_, built.layout_ok found h⟩

/-- The layout is that of the chain. -/
theorem layout_chain (built : t.Built) (chain : t.Chain className path) :
    ∃ l, t.layout className = .ok l ∧ l.chain = path.map (·.name) ∧
      l.stackEnd = fieldCount path := by
  obtain ⟨d, found, above⟩ := chain
  exact ⟨_, built.layout_ok found above, rfl, stackEnd above⟩

/-- The fields of a class are those of its chain in order. -/
theorem allFields_ok (built : t.Built) (chain : t.Chain className path) :
    t.allFields className = .ok (chainSlots 0 path) := by
  obtain ⟨l, hl, names, -⟩ := built.layout_chain chain
  -- every class of the chain has a layout, so all their fields can be read
  obtain ⟨parts, hparts⟩ : ∃ parts, l.chain.mapM (fun name => do
      return (← t.layout name).fields : String → Except LowerError (List FieldSlot)) =
        .ok parts := by
    refine except_mapM_of_forall fun name mem => ?_
    rw [names] at mem
    obtain ⟨c, hc, rfl⟩ := List.mem_map.1 mem
    obtain ⟨l', hl'⟩ := built.chain_layout_ok chain hc
    exact ⟨l'.fields, by rw [hl']; rfl⟩
  have all : t.allFields className = .ok parts.flatten := by
    rw [ClassTable.allFields, hl]
    show (l.chain.mapM _ >>= fun fields => Except.ok fields.flatten) = _
    rw [hparts]
    rfl
  obtain ⟨path', chain', e⟩ := built.allFields all
  rw [all, e, chain'.unique chain]

end Built

/-- The slots of a class are its fields, by name. -/
theorem owner_name_fieldSlots (d : ClassDecl) (start : Nat) :
    (fieldSlots d start).map (fun slot => (slot.owner, slot.name)) =
      d.instanceFields.map fun f => (d.name, f.name) := by
  refine List.ext_getElem (by simp [fieldSlots]) fun i h₁ h₂ => ?_
  simp [fieldSlots]

/-- So those of a chain. -/
theorem owner_name_chainSlots (start : Nat) (path : List ClassDecl) :
    (chainSlots start path).map (fun slot => (slot.owner, slot.name)) =
      path.flatMap fun c => c.instanceFields.map fun f => (c.name, f.name) := by
  induction path generalizing start with
  | nil => rfl
  | cons c rest ih =>
    rw [chainSlots, List.map_append, owner_name_fieldSlots, ih, List.flatMap_cons]

/-- The fields of the classes above come first. -/
theorem chainSlots_prefix (above below : List ClassDecl) (e : path = above ++ below) :
    chainSlots 0 above <+: chainSlots 0 path := by
  rw [e, chainSlots_append]
  exact List.prefix_append _ _

/-! ## Finding fields -/

/-- The first field of a name that a class declares itself. -/
theorem find?_fieldSlots (declares : d.Declares field) (start : Nat) :
    ∃ slot, (fieldSlots d start).find? (fun slot => slot.name == field) = some slot := by
  obtain ⟨f, mem, named⟩ := declares
  refine Option.isSome_iff_exists.1 (List.find?_isSome.2 ?_)
  obtain ⟨i, hi, rfl⟩ := List.getElem_of_mem mem
  exact ⟨_, List.mem_mapIdx.2 ⟨i, hi, rfl⟩, beq_iff_eq.2 named⟩

/-- A class that does not declare a field has no slot for it. -/
theorem find?_fieldSlots_none (not : ¬ d.Declares field) (start : Nat) :
    (fieldSlots d start).find? (fun slot => slot.name == field) = none := by
  refine List.find?_eq_none.2 fun slot mem same => not ?_
  obtain ⟨-, f, hf, named⟩ := mem_fieldSlots mem
  exact ⟨f, hf, named.trans (beq_iff_eq.1 same)⟩

/-- No class is twice on its way to the root. -/
theorem Chain.apart {t : ClassTable} {pre post : List ClassDecl} {c x : ClassDecl}
    (chain : t.Chain className (pre ++ c :: post)) (mem : x ∈ pre) : x.name ≠ c.name := by
  intro same
  have found : find? t.decls x.name = some x := chain.find (List.mem_append_left _ mem)
  have other : find? t.decls c.name = some c := chain.find (by simp)
  rw [same, other] at found
  cases found
  -- both places of the class end the one chain that it has
  obtain ⟨first, second, rfl⟩ := List.append_of_mem mem
  have again : t.Chain className (first ++ c :: (second ++ c :: post)) := by simpa using chain
  have short := again.upTo
  have long := chain.upTo
  have := congrArg List.length (short.unique long)
  simp at this

/-- Among all fields of a class, the first one of a name that a class of its chain declares. -/
theorem Chain.find?_chainSlots {t : ClassTable} {pre post : List ClassDecl} {c : ClassDecl}
    {slot : FieldSlot} (chain : t.Chain className (pre ++ c :: post))
    (here : (fieldSlots c (fieldCount pre)).find? (fun s => s.name == field) = some slot) :
    (chainSlots 0 (pre ++ c :: post)).find? (fun s => s.owner == c.name && s.name == field) =
      some slot := by
  -- the classes above have other names, and all fields of the class itself have its name
  have others : (chainSlots 0 pre).find? (fun s => s.owner == c.name && s.name == field) =
    none := by
    refine List.find?_eq_none.2 fun s mem same => ?_
    obtain ⟨x, hx, owner, -⟩ := mem_chainSlots mem
    rw [Bool.and_eq_true, beq_iff_eq, owner] at same
    exact chain.apart hx same.1
  have own : (fieldSlots c (fieldCount pre)).find? (fun s => s.owner == c.name && s.name == field) =
      (fieldSlots c (fieldCount pre)).find? fun s => s.name == field :=
    List.find?_congr fun s mem => by rw [(mem_fieldSlots mem).1, BEq.rfl, Bool.true_and]
  rw [chainSlots_append, chainSlots, List.find?_append, others, Option.none_or, List.find?_append,
    Nat.zero_add, own, here]
  rfl

namespace Built

variable {t : ClassTable} {pre post : List ClassDecl} {c : ClassDecl}

/-- Among classes of a chain that do not declare a field it is not found. -/
theorem layouts_without (built : t.Built) (field : String) (part : List ClassDecl)
    (chain : t.Chain className path) (sub : ∀ x ∈ part, x ∈ path)
    (without : ∀ x ∈ part, ¬ x.Declares field) :
    ∃ layouts, (part.map (·.name)).mapM t.layout = .ok layouts ∧
      layouts.findSome? (fun l => l.fields.find? fun f => f.name == field) = none := by
  induction part with
  | nil => exact ⟨[], rfl, rfl⟩
  | cons x part ih =>
    obtain ⟨inside, sub⟩ := List.forall_mem_cons.1 sub
    obtain ⟨not, without⟩ := List.forall_mem_cons.1 without
    obtain ⟨layouts, rest, none'⟩ := ih sub without
    obtain ⟨l, hl⟩ := built.chain_layout_ok chain inside
    obtain ⟨above, below, rfl⟩ := List.append_of_mem inside
    refine ⟨l :: layouts, by rw [List.map_cons, List.mapM_cons, hl, rest]; rfl, ?_⟩
    rw [List.findSome?_cons, built.fields chain hl, find?_fieldSlots_none not]
    exact none'

/-- The layouts of classes of a chain. -/
theorem layouts_ok (built : t.Built) (part : List ClassDecl) (chain : t.Chain className path)
    (sub : ∀ x ∈ part, x ∈ path) :
    ∃ layouts, (part.map (·.name)).mapM t.layout = .ok layouts := by
  refine except_mapM_of_forall fun name mem => ?_
  obtain ⟨x, hx, rfl⟩ := List.mem_map.1 mem
  exact built.chain_layout_ok chain (sub x hx)

/-- A field is found in the nearest class that declares it. -/
theorem findField_of_layouts (built : t.Built) (chain : t.Chain className path)
    {layouts : List ClassLayout} (each : (path.reverse.map (·.name)).mapM t.layout = .ok layouts)
    (field : String) :
    t.findField className field =
      match layouts.findSome? fun l => l.fields.find? fun f => f.name == field with
      | some slot => .ok slot
      | none => .error (.defect (.noInstanceField className field)) := by
  obtain ⟨l, hl, names, -⟩ := built.layout_chain chain
  rw [ClassTable.findField, hl]
  show (l.chain.reverse.mapM t.layout >>= _) = _
  rw [names, ← List.map_reverse, each]
  rfl

/-- The field that a name means in a class is the first one of that name in the nearest class that
declares one. -/
theorem findField_nearest (built : t.Built) (chain : t.Chain className (pre ++ c :: post))
    (declares : c.Declares field) (nearest : ∀ x ∈ post, ¬ x.Declares field) :
    ∃ slot, t.findField className field = .ok slot ∧
      (chainSlots 0 (pre ++ c :: post)).find? (fun s => s.owner == c.name && s.name == field) =
        some slot := by
  obtain ⟨slot, here⟩ := find?_fieldSlots declares (fieldCount pre)
  refine ⟨slot, ?_, chain.find?_chainSlots here⟩
  -- the layouts are looked through from the class upward
  obtain ⟨below, hbelow, none'⟩ := built.layouts_without field post.reverse chain
    (fun x mem => by simp [List.mem_reverse.1 mem]) fun x mem => nearest x (List.mem_reverse.1 mem)
  obtain ⟨l, hl⟩ := built.chain_layout_ok chain (c := c) (by simp)
  obtain ⟨above, habove⟩ := built.layouts_ok pre.reverse chain
    fun x mem => by simp [List.mem_reverse.1 mem]
  have each : ((pre ++ c :: post).reverse.map (·.name)).mapM t.layout =
    .ok (below ++ l :: above) := by
    have order : (pre ++ c :: post).reverse = post.reverse ++ c :: pre.reverse := by simp
    rw [order, List.map_append, List.map_cons, List.mapM_append, hbelow, List.mapM_cons, hl, habove]
    rfl
  rw [built.findField_of_layouts chain each, List.findSome?_append, none', Option.none_or,
    List.findSome?_cons, built.fields chain hl, here]

/-- A field that no class of the chain declares is missing. -/
theorem findField_missing (built : t.Built) (chain : t.Chain className path)
    (without : ∀ x ∈ path, ¬ x.Declares field) :
    t.findField className field = .error (.defect (.noInstanceField className field)) := by
  obtain ⟨layouts, each, none'⟩ := built.layouts_without field path.reverse chain
    (fun x => List.mem_reverse.1) fun x mem => without x (List.mem_reverse.1 mem)
  rw [built.findField_of_layouts chain each, none']

end Built

/-- Of the classes of a chain with a property one is nearest. -/
theorem exists_nearest {P : ClassDecl → Prop} (h : ∃ c ∈ path, P c) :
    ∃ pre c post, path = pre ++ c :: post ∧ P c ∧ ∀ x ∈ post, ¬ P x := by
  induction path with
  | nil =>
    obtain ⟨c, mem, -⟩ := h
    cases mem
  | cons top rest ih =>
    by_cases below : ∃ c ∈ rest, P c
    · obtain ⟨pre, c, post, rfl, hc, nearest⟩ := ih below
      exact ⟨top :: pre, c, post, rfl, hc, nearest⟩
    · obtain ⟨c, mem, hc⟩ := h
      rcases List.mem_cons.1 mem with rfl | mem
      · exact ⟨[], c, rest, rfl, hc, fun x mem hx => below ⟨x, mem, hx⟩⟩
      · exact absurd ⟨c, mem, hc⟩ below

/-- A field that no class in between declares again is the same further down. -/
theorem Built.findField_inherited {t : ClassTable} (built : t.Built) {pre post : List ClassDecl}
    {c : ClassDecl} (chain : t.Chain className (pre ++ c :: post)) {slot : FieldSlot}
    (found : t.findField c.name field = .ok slot) (nearest : ∀ x ∈ post, ¬ x.Declares field) :
    t.findField className field = .ok slot := by
  have above := chain.upTo
  -- the nearest class that declares the field is the same from both, and so is its first field of
  -- the name
  by_cases declared : ∃ x ∈ pre ++ [c], x.Declares field
  · obtain ⟨first, owner, second, e, declares, nearest'⟩ := exists_nearest declared
    rw [e] at above
    have whole : pre ++ c :: post = first ++ owner :: (second ++ post) := by
      have := congrArg (· ++ post) e
      simpa using this
    have nearest'' : ∀ x ∈ second ++ post, ¬ x.Declares field :=
      List.forall_mem_append.2 ⟨nearest', nearest⟩
    rw [whole] at chain
    obtain ⟨slot₁, found₁, here₁⟩ := built.findField_nearest above declares nearest'
    obtain ⟨slot₂, found₂, here₂⟩ := built.findField_nearest chain declares nearest''
    obtain rfl := Except.ok.inj (found.symm.trans found₁)
    -- the fields of the class above come first in both
    have before : chainSlots 0 (first ++ owner :: second) <+:
        chainSlots 0 (first ++ owner :: (second ++ post)) :=
      chainSlots_prefix (first ++ owner :: second) post (by simp)
    rw [before.find?_eq_some here₁] at here₂
    rw [found₂, Option.some.inj here₂]
  · have missing := built.findField_missing above fun x mem hx => declared ⟨x, mem, hx⟩
    cases missing.symm.trans found

/-! ## The whole table -/

/-- What a table has for a class: its chain, its fields and their stacks, and what names mean in it.
-/
structure LaysOut (t : ClassTable) (decls : List ClassDecl) (d : ClassDecl) (path : List ClassDecl)
    (slots : List FieldSlot) : Prop where
  rooted : RootPath decls d path
  layout : ∃ l, t.layout d.name = .ok l ∧ l.chain = path.map (·.name) ∧
    slots.map (·.stack) = List.range l.stackEnd
  allFields : t.allFields d.name = .ok slots
  /-- The instance fields of the root first, those of each class in the order of their declaration.
  -/
  fields : slots.map (fun slot => (slot.owner, slot.name)) =
    path.flatMap fun c => c.instanceFields.map fun f => (c.name, f.name)
  ancestors : ∀ a ∈ path, ∃ above, t.allFields a.name = .ok above ∧ above <+: slots
  /-- The nearest class that declares a field has it, the first one if there are several. -/
  nearest : ∀ pre c post field, path = pre ++ c :: post → c.Declares field →
    (∀ x ∈ post, ¬ x.Declares field) → ∃ slot, t.findField d.name field = .ok slot ∧
      slots.find? (fun s => s.owner == c.name && s.name == field) = some slot
  missing : ∀ field, (∀ c ∈ path, ¬ c.Declares field) →
    t.findField d.name field = .error (.defect (.noInstanceField d.name field))
  inherited : ∀ pre a post field slot, path = pre ++ a :: post →
    t.findField a.name field = .ok slot → (∀ x ∈ post, ¬ x.Declares field) →
      t.findField d.name field = .ok slot

/-- A table that is built lays out every class with its chain. -/
theorem Built.laysOut {t : ClassTable} (built : t.Built) (found : find? t.decls d.name = some d)
    (above : Ancestry t.decls d path) : t.LaysOut t.decls d path (chainSlots 0 path) := by
  have chain : t.Chain d.name path := ⟨d, found, above⟩
  obtain ⟨l, hl, names, ends⟩ := built.layout_chain chain
  refine ⟨above.rootPath (List.mem_of_find?_eq_some found), ⟨l, hl, names, ?_⟩,
    built.allFields_ok chain, owner_name_chainSlots 0 path, fun a mem => ?_, ?_,
    fun field => built.findField_missing chain, ?_⟩
  · rw [stack_chainSlots, ends, List.range_eq_range']
  · obtain ⟨pre, post, rfl⟩ := List.append_of_mem mem
    exact ⟨_, built.allFields_ok chain.upTo, chainSlots_prefix (pre ++ [a]) post (by simp)⟩
  · rintro pre c post field rfl
    exact built.findField_nearest chain
  · rintro pre a post field slot rfl
    exact built.findField_inherited chain

/-- The table of the same declarations in another order has the same layouts. -/
theorem layout_perm {t u : ClassTable} (ht : build decls = .ok t) (hu : build others = .ok u)
    (perm : others.Perm decls) (className : String) : u.layout className = t.layout className := by
  have distinct := (build_ok_iff.1 ⟨t, ht⟩).distinct
  have same := find?_perm distinct perm
  have builtT := built_build ht
  have builtU := built_build hu
  -- the table of a class is that of its chain, which is looked up by names
  cases found : find? decls className with
  | none =>
    rw [builtT.layout_error (by rw [decls_of_build ht, found]),
      builtU.layout_error (by rw [decls_of_build hu, same, found])]
  | some d =>
    obtain ⟨path, above, -⟩ := builtT.layout_of_mem (d := d)
      (by rw [decls_of_build ht]; exact List.mem_of_find?_eq_some found)
    rw [builtT.layout_ok (by rw [decls_of_build ht, found]) above]
    rw [decls_of_build ht] at above
    rw [builtU.layout_ok (by rw [decls_of_build hu, same, found])
      (by rw [decls_of_build hu]; exact above.congr same)]

/-- A table is built exactly of declarations with different names whose bases are declared and whose
chains are not cyclic. It has for every class the chain from its root and the fields along it, and
the order of the declarations makes no difference. -/
theorem build_lays_out (decls : List ClassDecl) :
    ((∃ t, build decls = .ok t) ↔ Consistent decls) ∧
      ∀ t, build decls = .ok t →
        (∀ d ∈ decls, ∃ path slots, t.LaysOut decls d path slots) ∧
        ∀ others, others.Perm decls →
          ∃ u, build others = .ok u ∧ ∀ className, u.layout className = t.layout className := by
  refine ⟨build_ok_iff, fun t h => ⟨fun d mem => ?_, fun others perm => ?_⟩⟩
  · have built := built_build h
    obtain rfl := decls_of_build h
    obtain ⟨path, above, -⟩ := built.layout_of_mem mem
    have found := (find?_eq_some_iff (build_ok_iff.1 ⟨t, h⟩).distinct).2 ⟨mem, rfl⟩
    exact ⟨path, _, built.laysOut found above⟩
  · -- consistency speaks of members only, so the order does not matter for it
    obtain ⟨distinct, bases, acyclic⟩ := build_ok_iff.1 ⟨t, h⟩
    have link (c p : ClassDecl) (h : Extends others c p) : Extends decls c p :=
      ⟨perm.mem_iff.1 h.declared, perm.mem_iff.1 h.known, h.base⟩
    have consistent : Consistent others := by
      refine ⟨((perm.map _).nodup_iff).2 distinct, fun d mem base extending => ?_,
        fun d up => acyclic d (TransGen.mono link _ _ up)⟩
      obtain ⟨parent, known, named⟩ := bases d (perm.mem_iff.1 mem) base extending
      exact ⟨parent, perm.mem_iff.2 known, named⟩
    obtain ⟨u, hu⟩ := build_ok_iff.2 consistent
    exact ⟨u, hu, layout_perm h hu perm⟩

def shapeField (name : String) : Source.FieldDecl := ⟨name, none, false⟩

def shape (name : String) (base : Option String) (fields : List Source.FieldDecl) : ClassDecl :=
  ⟨name, base, fields, [], [], .unknown⟩

def square : ClassDecl := shape "Square" (some "Shape") [shapeField "side"]

/-- A base between two classes that have it; one of these declares a field of the base again. -/
def shapes : List ClassDecl :=
  [square, shape "Shape" none [shapeField "x", ⟨"count", none, true⟩, shapeField "y"],
    shape "Circle" (some "Shape") [shapeField "x"]]

/-- The layout of a class with two above it. -/
theorem shapes_laid_out : Consistent shapes ∧ ∃ t path slots, build shapes = .ok t ∧
    t.LaysOut shapes square path slots ∧ slots.map (·.stack) = [0, 1, 2] ∧
      (t.findField "Circle" "x").map (·.stack) = .ok 2 ∧
        ∃ u, build shapes.reverse = .ok u ∧ u.layout "Square" = t.layout "Square" := by
  have built : ∃ t, build shapes = .ok t ∧ (∀ slots, t.allFields "Square" = .ok slots →
      slots.map (·.stack) = [0, 1, 2]) ∧ (t.findField "Circle" "x").map (·.stack) = .ok 2 :=
    ⟨_, rfl, fun slots all => by cases all; rfl, rfl⟩
  obtain ⟨t, h, numbered, circle⟩ := built
  obtain ⟨consistent, lays⟩ := build_lays_out shapes
  obtain ⟨each, order⟩ := lays t h
  obtain ⟨path, slots, laid⟩ := each square List.mem_cons_self
  obtain ⟨u, hu, same⟩ := order _ (List.reverse_perm _)
  exact ⟨consistent.1 ⟨t, h⟩, t, path, slots, h, laid, numbered slots laid.allFields, circle, u,
    hu, same _⟩

end ClassTable

end SkipCode
