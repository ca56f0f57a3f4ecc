import SkipCode.Proofs.Inheritance

/-!
# Layouts that are made once

`ClassTable.build` follows every class up to its root. A class can also be laid out right behind its
base: the base is laid out first, unless it has a layout already, and gives the chain and the stack
to go on from (`layOut`). Then each class is laid out once, and the layouts come in another order.

The two ways agree (`buildOnce_agrees`): they fail for the same declarations with the same error,
and otherwise give every class the same layout. The way up from a class only depends on what is
above it, so a layout that is there already ends the walk where a new walk would go on without a
failure (`Ancestry.walked`); and a class without a root never comes to one that has a layout
(`layOut_error`).
-/

namespace SkipCode

open Source (ClassDecl)

namespace ClassTable

/-! ## Laying a class out behind its base -/

/-- Puts the layout of a class behind those that are made. `start` is the end of the stacks of its
base and `above` the chain of its base. -/
def put (d : ClassDecl) (start : Nat) (above : List String) (made : List ClassLayout) :
    Nat × List ClassLayout :=
  let l : ClassLayout := ⟨d.name, d.base, above ++ [d.name], fieldSlots d start, start⟩
  (l.stackEnd, made ++ [l])

/-- The chain of a class that has a layout. -/
def chainIn (made : List ClassLayout) (className : String) : List String :=
  ((made.find? fun l => l.name == className).map (·.chain)).getD []

/-- Lays out a class and, as far as they have no layout, the classes above it. Gives the end of its
stacks with all layouts. `path` has the names met on the way to the class. -/
def layOut (decls : List ClassDecl) : (steps : Nat) → (path : List String) → (className : String) →
    (made : List ClassLayout) → Except LowerError (Nat × List ClassLayout)
  | 0, path, className, _ => .error (.unsupported (.inheritanceCycle className path))
  | steps + 1, path, className, made =>
    match made.find? fun l => l.name == className with
    | some l => .ok (l.stackEnd, made)
    | none =>
      if path.contains className then
        .error (.unsupported (.inheritanceCycle className path))
      else
        match find? decls className with
        | none => .error (.defect (.unknownClass className))
        | some d =>
          match d.base with
          | none => .ok (put d 0 [] made)
          | some base =>
            match find? decls base with
            | none => .error ((LowerError.defect (.unknownBase d.name base)).withSpan d.span)
            | some _ =>
              (layOut decls steps (path ++ [className]) base made).map fun p =>
                put d p.1 (chainIn p.2 base) p.2

/-- Lays out the next class of a program. -/
def layOutNext (decls : List ClassDecl) (made : List ClassLayout) (d : ClassDecl) :
    Except LowerError (List ClassLayout) :=
  (layOut decls decls.length [] d.name made).map Prod.snd

/-- Lays out all classes of a program, each of them once. -/
def buildOnce (decls : List ClassDecl) : Except LowerError ClassTable := do
  checkDistinct [] decls
  return ⟨decls, ← decls.foldlM (layOutNext decls) []⟩

variable {decls : List ClassDecl} {d parent : ClassDecl} {chain above : List ClassDecl}
  {made : List ClassLayout} {l : ClassLayout} {steps : Nat} {path below : List String}
  {className : String}

/-! ## The way up from a class with a root -/

/-- The names that were met on the way to a class are of classes with longer chains than its own. -/
def MetBelow (decls : List ClassDecl) (below : List String) (chain : List ClassDecl) : Prop :=
  ∀ name ∈ below, ∃ c longer, find? decls name = some c ∧ Ancestry decls c longer ∧
    chain.length < longer.length

namespace Ancestry

/-- A class is not met on the way to itself. -/
theorem fresh (h : Ancestry decls d chain) (found : find? decls d.name = some d)
    (under : MetBelow decls below chain) : d.name ∉ below := by
  intro met
  obtain ⟨c, longer, found', h', longer_lt⟩ := under _ met
  rw [found] at found'
  cases found'
  rw [h.unique h'] at longer_lt
  exact Nat.lt_irrefl _ longer_lt

/-- While the names that were met differ there are steps left: with the class itself they are no
more than the classes. -/
theorem steps_pos (h : Ancestry decls d chain) (found : find? decls d.name = some d)
    (nodup : below.Nodup) (under : MetBelow decls below chain)
    (enough : decls.length ≤ steps + below.length) : 0 < steps := by
  have nodup' : (d.name :: below).Nodup := List.nodup_cons.2 ⟨h.fresh found under, nodup⟩
  have sub : d.name :: below ⊆ decls.map (·.name) := by
    refine List.cons_subset.2
      ⟨List.mem_map_of_mem (List.mem_of_find?_eq_some found), fun name met => ?_⟩
    obtain ⟨c, _, known, -⟩ := under name met
    exact List.mem_map.2 ⟨c, List.mem_of_find?_eq_some known, name_of_find? known⟩
  have := (List.Nodup.subperm nodup' sub).length_le
  rw [List.length_cons, List.length_map] at this
  omega

/-- A class that has a root comes to it, by whatever way it was come to itself. -/
theorem walked (h : Ancestry decls d chain) (found : find? decls d.name = some d)
    (nodup : below.Nodup) (under : MetBelow decls below chain)
    (enough : decls.length ≤ steps + below.length) :
    ancestry decls steps below d = .ok chain := by
  -- on the ancestry, from the class toward its root
  induction h generalizing steps below with
  | @root d base =>
    have left := steps_pos (.root base) found nodup under enough
    obtain ⟨steps, rfl⟩ := Nat.exists_eq_succ_of_ne_zero left.ne'
    rw [ancestry, base]
  | @step d base parent chain hbase hparent up ih =>
    have whole : Ancestry decls d (chain ++ [d]) := .step hbase hparent up
    have left := steps_pos whole found nodup under enough
    obtain ⟨steps, rfl⟩ := Nat.exists_eq_succ_of_ne_zero left.ne'
    have known : find? decls parent.name = some parent := by rwa [name_of_find? hparent]
    have under' : MetBelow decls (below ++ [d.name]) chain := by
      intro name met
      rcases List.mem_append.1 met with met | met
      · obtain ⟨c, longer, hc, h, lt⟩ := under name met
        rw [List.length_append] at lt
        exact ⟨c, longer, hc, h, by omega⟩
      · rw [List.mem_singleton.1 met]
        exact ⟨d, _, found, whole, by simp⟩
    have new : base ∉ below ++ [d.name] := by
      rw [← name_of_find? hparent]
      exact fresh up known under'
    have nodup' : (below ++ [d.name]).Nodup := by
      rw [List.nodup_append_comm]
      exact List.nodup_cons.2 ⟨whole.fresh found under, nodup⟩
    have enough' : decls.length ≤ steps + (below ++ [d.name]).length := by
      rw [List.length_append, List.length_singleton]
      omega
    rw [ancestry, hbase]
    dsimp only
    rw [hparent]
    dsimp only
    rw [if_neg (by simpa using new), ih known nodup' under' enough']
    rfl

end Ancestry

/-! ## The layouts that are made -/

/-- Each of some layouts is the one of a declared class. -/
def Made (decls : List ClassDecl) (made : List ClassLayout) : Prop :=
  ∀ l ∈ made, ∃ d chain, find? decls l.name = some d ∧ Ancestry decls d chain ∧
    l = layoutOf chain d

/-- A layout that is found is the one of the class. -/
theorem Made.find (h : Made decls made)
    (found : (made.find? fun l => l.name == className) = some l) :
    ∃ d chain, find? decls className = some d ∧ Ancestry decls d chain ∧ l = layoutOf chain d := by
  have named : l.name = className := by simpa using List.find?_some found
  rw [← named]
  exact h l (List.mem_of_find?_eq_some found)

/-- Of a class whose layout is made that layout is found. -/
theorem Made.find_of_mem (h : Made decls made) (declared : find? decls d.name = some d)
    (up : Ancestry decls d chain) (mem : layoutOf chain d ∈ made) :
    (made.find? fun l => l.name == d.name) = some (layoutOf chain d) := by
  obtain ⟨l, found⟩ : ∃ l, (made.find? fun l => l.name == d.name) = some l :=
    Option.isSome_iff_exists.1 (List.find?_isSome.2 ⟨_, mem, beq_self_eq_true _⟩)
  obtain ⟨c, other, hc, up', rfl⟩ := h.find found
  rw [declared] at hc
  cases hc
  rw [found, up.unique up']

/-- The stacks of a class end behind all fields of its chain. -/
theorem stackEnd_layoutOf (up : Ancestry decls d chain) :
    (layoutOf chain d).stackEnd = fieldCount chain :=
  Built.stackEnd (t := ⟨decls, []⟩) up

/-- Behind the chain of its base a class gets the layout that its own chain gives it. -/
theorem put_eq (d : ClassDecl) (above : List ClassDecl) (made : List ClassLayout) :
    put d (fieldCount above) (above.map (·.name)) made =
      ((layoutOf (above ++ [d]) d).stackEnd, made ++ [layoutOf (above ++ [d]) d]) := by
  simp [put, layoutOf, fieldCount]

/-- Another layout is made. -/
theorem Made.put (h : Made decls made) (found : find? decls d.name = some d)
    (up : Ancestry decls d chain) : Made decls (made ++ [layoutOf chain d]) :=
  List.forall_mem_append.2 ⟨h, List.forall_mem_singleton.2 ⟨d, chain, found, up, rfl⟩⟩

/-! ## The two ways agree -/

/-- A class with a way to its root is laid out with the chain of that way. -/
theorem layOut_ok (h : Made decls made) (found : find? decls d.name = some d)
    (new : d.name ∉ path) (walked : ancestry decls steps path d = .ok chain) :
    ∃ made', layOut decls steps path d.name made = .ok (fieldCount chain, made') ∧
      Made decls made' ∧ made ⊆ made' ∧ layoutOf chain d ∈ made' := by
  -- on the steps, which the two ways count alike
  induction steps generalizing path d chain with
  | zero => cases walked
  | succ steps ih =>
    have up := Ancestry.ofAncestry walked
    rw [layOut]
    cases there : made.find? fun l => l.name == d.name with
    | some l =>
      -- the layout is there, and a class has one chain
      obtain ⟨c, other, hc, up', rfl⟩ := h.find there
      rw [found] at hc
      cases hc
      obtain rfl := up.unique up'
      exact ⟨made, by rw [← stackEnd_layoutOf up], h, List.Subset.refl _,
        List.mem_of_find?_eq_some there⟩
    | none =>
      dsimp only
      rw [if_neg (by simpa using new), found]
      dsimp only
      rw [ancestry] at walked
      cases hbase : d.base with
      | none =>
        rw [hbase] at walked
        cases walked
        have e : ClassTable.put d 0 [] made = (fieldCount [d], made ++ [layoutOf [d] d]) := by
          rw [← stackEnd_layoutOf up]
          exact put_eq d [] made
        exact ⟨_, congrArg Except.ok e, h.put found up, List.subset_append_left ..,
          List.mem_append_right _ List.mem_cons_self⟩
      | some base =>
        rw [hbase] at walked
        dsimp only at walked ⊢
        cases hparent : find? decls base with
        | none =>
          rw [hparent] at walked
          cases walked
        | some parent =>
          rw [hparent] at walked
          dsimp only at walked ⊢
          split at walked
          · cases walked
          · next fresh =>
            obtain ⟨above, walked', e⟩ := except_bind_ok.1 walked
            cases e
            have named := name_of_find? hparent
            subst named
            obtain ⟨made₁, done, h₁, sub, mem⟩ := ih hparent (by simpa using fresh) walked'
            have inside : chainIn made₁ parent.name = above.map (·.name) := by
              rw [chainIn, h₁.find_of_mem hparent (.ofAncestry walked') mem]
              rfl
            refine ⟨made₁ ++ [layoutOf (above ++ [d]) d], ?_, h₁.put found up,
              List.Subset.trans sub (List.subset_append_left ..),
              List.mem_append_right _ List.mem_cons_self⟩
            rw [done]
            change Except.ok (ClassTable.put d _ (chainIn made₁ parent.name) made₁) = _
            rw [inside, put_eq, stackEnd_layoutOf up]

/-- A class without a root fails as its walk does: nothing above it has a layout. -/
theorem layOut_error {e : LowerError} (h : Made decls made) (found : find? decls d.name = some d)
    (new : d.name ∉ path) (rootless : ∀ chain, ¬ Ancestry decls d chain)
    (walked : ancestry decls steps path d = .error e) :
    layOut decls steps path d.name made = .error e := by
  -- on the steps, as above
  induction steps generalizing path d with
  | zero =>
    cases walked
    rfl
  | succ steps ih =>
    rw [layOut]
    cases there : made.find? fun l => l.name == d.name with
    | some l =>
      obtain ⟨c, chain, hc, up, -⟩ := h.find there
      rw [found] at hc
      cases hc
      exact absurd up (rootless chain)
    | none =>
      dsimp only
      rw [if_neg (by simpa using new), found]
      dsimp only
      rw [ancestry] at walked
      cases hbase : d.base with
      | none => exact absurd (.root hbase) (rootless [d])
      | some base =>
        rw [hbase] at walked
        dsimp only at walked ⊢
        cases hparent : find? decls base with
        | none =>
          rw [hparent] at walked
          cases walked
          rfl
        | some parent =>
          rw [hparent] at walked
          dsimp only at walked ⊢
          have named := name_of_find? hparent
          subst named
          have without : ∀ chain, ¬ Ancestry decls parent chain :=
            fun chain up => rootless _ (.step hbase hparent up)
          split at walked
          · next met =>
            -- the cycle is seen one step later, when its first class is come to again
            cases walked
            cases steps with
            | zero => rfl
            | succ steps =>
              rw [layOut]
              cases other : made.find? fun l => l.name == parent.name with
              | some l =>
                obtain ⟨c, chain, hc, up, -⟩ := h.find other
                rw [hparent] at hc
                cases hc
                exact absurd up (without chain)
              | none =>
                dsimp only
                rw [if_pos met]
                rfl
          · next fresh =>
            have walked' : ancestry decls steps (path ++ [d.name]) parent = .error e := by
              cases r : ancestry decls steps (path ++ [d.name]) parent with
              | ok above =>
                rw [r] at walked
                cases walked
              | error e' =>
                rw [r] at walked
                exact walked
            rw [ih hparent (by simpa using fresh) without walked']
            rfl

/-- Going through declarations the two ways fail at the same one, or lay all of them out. -/
theorem foldlM_layOut (distinct : (decls.map (·.name)).Nodup) (rest : List ClassDecl)
    (sub : rest ⊆ decls) (h : Made decls made) :
    (∃ e,
      (rest.mapM fun d => do return layoutOf (← ancestry decls decls.length [] d) d) = .error e ∧
      rest.foldlM (layOutNext decls) made = .error e) ∨
    ∃ layouts made',
      (rest.mapM fun d => do return layoutOf (← ancestry decls decls.length [] d) d) = .ok layouts ∧
      rest.foldlM (layOutNext decls) made = .ok made' ∧
      Made decls made' ∧ made ⊆ made' ∧
      ∀ d ∈ rest, ∃ chain, Ancestry decls d chain ∧ layoutOf chain d ∈ made' := by
  -- on the declarations that are left, with the layouts made for the others
  induction rest generalizing made with
  | nil => exact .inr ⟨[], made, rfl, rfl, h, List.Subset.refl _, List.forall_mem_nil _⟩
  | cons d rest ih =>
    obtain ⟨mem, sub⟩ := List.cons_subset.1 sub
    have found : find? decls d.name = some d := (find?_eq_some_iff distinct).2 ⟨mem, rfl⟩
    cases walked : ancestry decls decls.length [] d with
    | error e =>
      have rootless : ∀ chain, ¬ Ancestry decls d chain := by
        intro chain up
        rw [up.walked found List.nodup_nil (List.forall_mem_nil _) (Nat.le_refl _)] at walked
        cases walked
      have failed := layOut_error h found List.not_mem_nil rootless walked
      refine .inl ⟨e, by rw [List.mapM_cons, walked]; rfl, ?_⟩
      rw [List.foldlM_cons, layOutNext, failed]
      rfl
    | ok chain =>
      obtain ⟨made₁, done, h₁, more, mem₁⟩ := layOut_ok h found List.not_mem_nil walked
      rcases ih sub h₁ with ⟨e, left, right⟩ | ⟨layouts, made', left, right, h', more', all⟩
      · refine .inl ⟨e, ?_, ?_⟩
        · rw [List.mapM_cons, walked, left]
          rfl
        · rw [List.foldlM_cons, layOutNext, done]
          exact right
      · refine .inr ⟨layoutOf chain d :: layouts, made', ?_, ?_, h', List.Subset.trans more more',
          List.forall_mem_cons.2 ⟨⟨chain, .ofAncestry walked, more' mem₁⟩, all⟩⟩
        · rw [List.mapM_cons, walked, left]
          rfl
        · rw [List.foldlM_cons, layOutNext, done]
          exact right

/-- Classes that are laid out once, each behind its base, have the layouts that `build` gives them,
and declarations that `build` refuses are refused with the same error. -/
theorem buildOnce_agrees (decls : List ClassDecl) :
    (∃ e, build decls = .error e ∧ buildOnce decls = .error e) ∨
    ∃ t u, build decls = .ok t ∧ buildOnce decls = .ok u ∧ u.decls = t.decls ∧
      ∀ className, u.layout className = t.layout className := by
  cases checked : checkDistinct [] decls with
  | error e =>
    exact .inl ⟨e, by rw [build, checked]; rfl, by rw [buildOnce, checked]; rfl⟩
  | ok =>
    have distinct := (checkDistinct_ok_iff.1 checked).1
    rcases foldlM_layOut distinct decls (List.Subset.refl _) (List.forall_mem_nil _) with
      ⟨e, left, right⟩ | ⟨layouts, made, left, right, h, -, all⟩
    · exact .inl ⟨e, by rw [build, checked, left]; rfl, by rw [buildOnce, checked, right]; rfl⟩
    · have built : build decls = .ok ⟨decls, layouts⟩ := by rw [build, checked, left]; rfl
      refine .inr ⟨⟨decls, layouts⟩, ⟨decls, made⟩, built,
        by rw [buildOnce, checked, right]; rfl, rfl, fun className => ?_⟩
      -- a layout is there exactly for the declared names, and it is the one of their chains
      cases found : find? decls className with
      | none =>
        rw [(built_build built).layout_error found, layout]
        cases there : made.find? fun l => l.name == className with
        | none => rfl
        | some l =>
          obtain ⟨d, chain, hd, -⟩ := h.find there
          rw [found] at hd
          cases hd
      | some d =>
        have named := name_of_find? found
        subst named
        obtain ⟨chain, up, mem⟩ := all d (List.mem_of_find?_eq_some found)
        rw [(built_build built).layout_ok found up, layout, h.find_of_mem found up mem]

end ClassTable

end SkipCode
