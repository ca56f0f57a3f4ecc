import Mathlib.Data.List.Forall2
import SkipCode.Proofs.Passes

/-!
# Passes without an error

A pass without an error has lowered all units of its program, each without any error. They go into
an image by name, while a name that is used twice is looked for among the rules alone. The two
differ in one name: a rule that is called as the unit of static fields is no second rule of that
name, and its list takes the place of the other one.

* `Pass.passed`: in a pass without a failure every unit has an output, and every output a list;
* `Image.insertAll_replaced`: what becomes of a unit whose name comes up once more;
* `Course.ships_all`: a pass without an error ships all units in order, but for the one that is
  replaced;
* `static_init_replaced`: a program that loses the initial values of its static fields.
-/

namespace SkipCode

open Source (Program Rule)

/-- The names of the units of a program, in order. -/
def Source.Program.unitNames (program : Program) : List String :=
  (if program.hasStatics then [Session.staticInitUnit] else []) ++ program.rules.map Rule.name

/-- What is shipped under a name is what the unit of that name gave when nothing went wrong. -/
def Shipped (unit : String × ActionList) (output : String × UnitOutput) : Prop :=
  unit.1 = output.1 ∧ output.2.clean? = some unit.2

/-! ## Units that all lower -/

theorem shipped_cleanUnits {outputs : List (String × UnitOutput)}
    (clean : ∀ output ∈ outputs, ∃ list, output.2.clean? = some list) :
    List.Forall₂ Shipped (cleanUnits outputs) outputs := by
  induction outputs with
  | nil => exact .nil
  | cons first rest ih =>
    obtain ⟨name, output⟩ := first
    obtain ⟨list, found⟩ := clean _ List.mem_cons_self
    rw [cleanUnits_cons, found]
    exact .cons ⟨rfl, found⟩ (ih fun output mem => clean output (List.mem_cons_of_mem _ mem))

theorem names_of_shipped {units : List (String × ActionList)} {outputs : List (String × UnitOutput)}
    (shipped : List.Forall₂ Shipped units outputs) : units.map Prod.fst = outputs.map Prod.fst := by
  induction shipped with
  | nil => rfl
  | cons one _ ih => rw [List.map_cons, List.map_cons, one.1, ih]

namespace Pass

variable {p q : Pass} {outputs : List (String × UnitOutput)}

theorem failed_accept (p : Pass) (unit : String) (output : UnitOutput) :
    (p.accept unit output).failed = (p.failed || output.clean?.isNone) := by
  cases clean : output.clean? with
  | some list => rw [p.accept_clean unit clean, Option.isNone_some, Bool.or_false]
  | none =>
    obtain ⟨e, errors, accepted⟩ := p.accept_unclean unit clean
    rw [accepted, Option.isNone_none, Bool.or_true]

/-- An output that is added without a failure has a list. -/
theorem clean_of_accept {unit : String} {output : UnitOutput}
    (passed : (p.accept unit output).failed = false) :
    p.failed = false ∧ ∃ list, output.clean? = some list := by
  rw [failed_accept, Bool.or_eq_false_iff] at passed
  exact ⟨passed.1, Option.isSome_iff_exists.1 (Option.isNone_eq_false_iff.1 passed.2)⟩

/-- Rules that are lowered without a failure all have names of their own and lists. -/
theorem rules_passed {seen : List String} {rules : List Rule}
    (done : Pass.rules seen rules p = some q) (passed : q.failed = false)
    (found : Session.ruleOutputs seen rules p.session = some outputs) :
    p.failed = false ∧ outputs.map Prod.fst = rules.map Rule.name ∧
      ∀ output ∈ outputs, ∃ list, output.2.clean? = some list := by
  induction rules generalizing seen p outputs with
  | nil =>
    cases done
    cases found
    exact ⟨passed, rfl, List.forall_mem_nil _⟩
  | cons rule rest ih =>
    rw [Pass.rules] at done
    rw [Session.ruleOutputs] at found
    split at done
    · next repeated =>
      -- a name that comes up again is a failure, and a failure is never taken back
      rw [if_pos repeated] at found
      cases (ih done found).1
    · next unseen =>
      rw [if_neg unseen] at found
      obtain ⟨output, lowered, done⟩ := Option.bind_eq_some_iff.1 done
      rw [lowered, Option.bind_eq_bind, Option.bind_some] at found
      obtain ⟨later, rest, last⟩ := Option.bind_eq_some_iff.1 found
      cases last
      obtain ⟨accepted, names, lists⟩ := ih done (by rwa [session_accept])
      obtain ⟨before, list⟩ := clean_of_accept accepted
      exact ⟨before, congrArg (rule.name :: ·) names, List.forall_mem_cons.2 ⟨list, lists⟩⟩

/-- A pass without a failure has an output for every unit and a list in every output, and no two of
its rules have one name. -/
theorem passed {σ : Session} {program : Program} (done : σ.pass program = some q)
    (passed : q.failed = false) (found : σ.outputs program = some outputs) :
    outputs.map Prod.fst = program.unitNames ∧ (program.rules.map Rule.name).Nodup ∧
      ∀ output ∈ outputs, ∃ list, output.2.clean? = some list := by
  obtain ⟨first, statics, rules⟩ := Option.bind_eq_some_iff.1 done
  unfold Pass.statics at statics
  unfold Session.outputs at found
  unfold Program.unitNames
  split at statics
  · next none =>
    cases statics
    have without : program.hasStatics = false := by rw [Program.hasStatics, none]; rfl
    rw [without, if_neg Bool.false_ne_true] at found
    obtain ⟨-, names, lists⟩ := rules_passed rules passed found
    rw [without, if_neg Bool.false_ne_true, ← names]
    exact ⟨rfl, (Session.names_ruleOutputs found).1, lists⟩
  · next some =>
    have within : program.hasStatics = true := by simpa [Program.hasStatics] using some
    obtain ⟨output, lowered, statics⟩ := Option.bind_eq_some_iff.1 statics
    cases statics
    rw [if_pos within, lowered, Option.bind_eq_bind, Option.bind_some] at found
    obtain ⟨later, rest, last⟩ := Option.bind_eq_some_iff.1 found
    cases last
    obtain ⟨accepted, names, lists⟩ := rules_passed rules passed (by rwa [session_accept])
    obtain ⟨-, list⟩ := clean_of_accept accepted
    rw [if_pos within, ← names]
    exact ⟨rfl, (Session.names_ruleOutputs rest).1, List.forall_mem_cons.2 ⟨list, lists⟩⟩

end Pass

/-! ## A name that comes up once more -/

/-- A unit whose name comes up again is replaced where it stands. -/
theorem Image.insertAll_replaced {name : String} {first replacing : ActionList}
    {before after : List (String × ActionList)}
    (fresh : (name :: (before ++ after).map Prod.fst).Nodup) :
    (Image.empty.insertAll ((name, first) :: (before ++ (name, replacing) :: after))).units =
      (name, replacing) :: (before ++ after) := by
  have split : Image.empty.insertAll ((name, first) :: (before ++ (name, replacing) :: after)) =
      ((Image.empty.insertAll ((name, first) :: before)).insert name replacing).insertAll
        after := by
    rw [← List.cons_append, insertAll, List.foldl_append]
    rfl
  rw [List.map_append, ← List.cons_append] at fresh
  have start : (Image.empty.insertAll ((name, first) :: before)).units = (name, first) :: before :=
    insertAll_units (List.nodup_append.1 fresh).1
  have put : ((Image.empty.insertAll ((name, first) :: before)).insert name replacing).units =
      (name, replacing) :: before := by
    rw [insert, start, Image.put, if_pos rfl]
  rw [split, insertAll_units, put, List.cons_append]
  rwa [names, put, List.map_cons]

/-- A name among some units, with what stands before it and behind it. -/
theorem exists_split {units : List (String × ActionList)} {name : String}
    (mem : name ∈ units.map Prod.fst) :
    ∃ list before after, units = before ++ (name, list) :: after := by
  obtain ⟨⟨_, list⟩, found, rfl⟩ := List.mem_map.1 mem
  obtain ⟨before, after, whole⟩ := List.append_of_mem found
  exact ⟨list, before, after, whole⟩

/-! ## What is shipped -/

section

variable {config : LowerConfig} {past : List (Program × Compilation)} {c c' : Compiler}
  {program : Program} {result : Compilation}

/-- A pass without an error has lowered the unit of static fields, if there is one, and after it
each rule, and it ships what they gave, in this order and under their names. Only if a rule has the
name of the unit of static fields, and that unit is there, its list stands in the place of the other
one and not in its own. -/
theorem Course.ships_all (course : Course config past c)
    (done : c.compile program = some (result, c')) (noError : result.hasErrors = false) :
    ∃ outputs units, program.outputs config = some outputs ∧
      outputs.map Prod.fst = program.unitNames ∧ List.Forall₂ Shipped units outputs ∧
      (program.Apart → result.image.units = units) ∧
      (¬ program.Apart → ∃ first replacing before after,
        units = (Session.staticInitUnit, first) :: (before ++ (Session.staticInitUnit,
          replacing) :: after) ∧
          result.image.units = (Session.staticInitUnit, replacing) :: (before ++ after)) := by
  have same := course.config_eq
  obtain ⟨e, -, rfl, -⟩ | ⟨σ, pass, start, made, outcome⟩ := Compiler.compile_pass done
  · -- a program that is refused reports its error
    rw [Compiler.hasErrors_fallBack] at noError
    cases noError
  have counted : pass.Counted := Pass.counted made
  obtain ⟨failed, rfl, -⟩ | ⟨passed, rfl, -⟩ := outcome
  · rw [Compiler.hasErrors_warnCeiling, Compiler.hasErrors_fallBack] at noError
    cases failed.symm.trans (counted.trans noError)
  obtain ⟨outputs, found, image⟩ := Pass.image_pass made
  obtain ⟨names, nodup, lists⟩ := Pass.passed made passed found
  have all : program.outputs config = some outputs := by
    rw [← same, Program.outputs, start]
    exact found
  have shipped := shipped_cleanUnits lists
  refine ⟨outputs, cleanUnits outputs, all, names, shipped, fun apart => ?_, fun clash => ?_⟩
  · rw [Compiler.image_warnCeiling, image]
    exact Course.units_of_insertAll apart (congrArg (Option.map cleanUnits) all)
  · -- the unit of static fields comes first, and its name once more among the rules
    obtain ⟨statics, clash⟩ := Classical.not_imp.1 clash
    obtain ⟨rule, mem, called⟩ : ∃ rule ∈ program.rules, rule.name = Session.staticInitUnit := by
      simpa using clash
    have units := (names_of_shipped shipped).trans names
    rw [Program.unitNames, if_pos statics, List.singleton_append] at units
    obtain ⟨⟨_, first⟩, rest, whole, rfl, later⟩ := List.map_eq_cons_iff.1 units
    obtain ⟨replacing, before, after, rfl⟩ : ∃ replacing before after,
        rest = before ++ (Session.staticInitUnit, replacing) :: after :=
      exists_split (by rw [later, ← called]; exact List.mem_map_of_mem mem)
    refine ⟨first, replacing, before, after, whole, ?_⟩
    rw [Compiler.image_warnCeiling, image, whole]
    refine Image.insertAll_replaced ?_
    rw [← later, List.map_append, List.map_cons] at nodup
    rw [List.map_append]
    exact List.nodup_middle.1 nodup

end

namespace CleanPass

open Source (ClassDecl FieldDecl)

/-- A class with a static field that starts as 5. -/
def counter : ClassDecl := .named "C" none [.static "count" (some (.number (.ofNat 5)))] [] []

/-- A program with a unit for static fields and two rules. -/
def program : Program :=
  ⟨[counter], [], [⟨"first", .global, [.define "x" (some (.number (.ofNat 1)))]⟩,
    ⟨"second", .actor, []⟩]⟩

/-- A program with a unit for static fields and a rule of its name. -/
def clash : Program := ⟨[counter], [], [⟨Session.staticInitUnit, .global, []⟩]⟩

end CleanPass

open CleanPass in
/-- Three units are lowered and shipped. -/
theorem ships_all_three_units :
    ∃ result c', (Compiler.new .default).compile program = some (result, c') ∧
    result.hasErrors = false ∧ ∃ outputs, program.outputs .default = some outputs ∧
      outputs.map Prod.fst = [Session.staticInitUnit, "first", "second"] ∧
      List.Forall₂ Shipped result.image.units outputs := by
  obtain ⟨result, c', done, clean⟩ := Compiler.exists_pass (.new .default) program
    (fun one => !one.1.hasErrors) (by decide +kernel)
  have noError : result.hasErrors = false := by simpa using clean
  obtain ⟨outputs, units, found, names, shipped, whole, -⟩ := Course.ships_all .new done noError
  have apart : program.Apart := fun _ rule mem => by
    obtain rfl | rfl : rule = _ ∨ rule = _ := by simpa [program] using mem
    · decide
    · decide
  exact ⟨result, c', done, noError, outputs, found, names, whole apart ▸ shipped⟩

open CleanPass in
/-- A rule takes the place of the unit of static fields, and nothing is reported. -/
theorem static_init_replaced :
    ¬ ∀ (program : Program) (result : Compilation) (c' : Compiler),
      (Compiler.new .default).compile program = some (result, c') → result.hasErrors = false →
        result.image.names = program.unitNames := by
  intro claim
  obtain ⟨result, c', done, h⟩ := Compiler.exists_pass (.new .default) clash
    (fun one => !one.1.hasErrors && decide (one.1.image.names = [Session.staticInitUnit]))
    (by decide +kernel)
  obtain ⟨clean, names⟩ := (Bool.and_eq_true _ _).mp h
  have two : result.image.names = [Session.staticInitUnit, Session.staticInitUnit] :=
    claim clash result c' done (by simpa using clean)
  cases two.symm.trans (of_decide_eq_true names)

end SkipCode
